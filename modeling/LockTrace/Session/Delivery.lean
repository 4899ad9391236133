import LockTrace.Monitor.Writing
import LockTrace.Session.Basic

/-!
# Sessions with a sink

A session that writes its records into a sink. Every output is handed over where it arises; a
sink that turns a record down stops the session there. The counterparts in
`LockTrace.Session.Basic` do the same work without a sink.
-/

namespace LockTrace.Session

/-! ### The buffer of accesses -/

/-- An access is counted before its row is written. -/
def writeAccessInto (s : Session) (a : PendingAccess) : Writing Session := do
  let monitor ← (s.monitor.countAccess a.ctx).hand (.record (.access (s.accessRow a)))
  return { s with monitor := monitor, accessIds := s.accessIds.advance }

def writeAccessesInto : Session → List PendingAccess → Writing Session
  | s, [] => pure s
  | s, a :: as => do
    let s ← s.writeAccessInto a
    writeAccessesInto s as

def flushInto (s : Session) (lock : Option (UInt64 × Int64)) : Writing Session :=
  let (pending, dropped) := dropOwnUpdate lock s.pending
  writeAccessesInto { s with pending := [], discarded := s.discarded + dropped } pending.reverse

/-! ### Events -/

def lockEventInto (s : Session) (e : Event) (op : LockOp) (irqSync : IrqSync) (flags : UInt32) :
    Writing Session :=
  if op.isAcquire = false ∧ s.monitor.locks.find? e.address = none then do
    let monitor ← s.monitor.hand
      (.report (.operation .noRunningTxn (describeUnseen e op) op e.time e.ctx))
    return { s with monitor := monitor }
  else do
    let (key, monitor) ← s.monitor.findOrCreateInto e.address e.typeName flags s.place
    let t : Transition := ⟨op, e.ctx, e.time, s.stripSite e.site, e.preemptCount, irqSync, flags⟩
    let monitor ← monitor.stepInto key t
    return { s with monitor := monitor }

def flushedLockEventInto (s : Session) (e : Event) (op : LockOp) (irqSync : IrqSync)
    (flags : UInt32) : Writing Session :=
  if e.typeName ∈ ignoredTypes then
    pure { s with counts := { s.counts with ignored := s.counts.ignored + 1 } }
  else do
    let s ← s.flushInto (some (e.address, e.ctx))
    s.lockEventInto e op irqSync flags

def allocEventInto (s : Session) (e : Event) (size : UInt64) : Writing Session := do
  let change := s.heap.allocate e.address size e.typeName e.time
  let monitor ← s.monitor.handAll change.outputs
  return { s with heap := change.heap, monitor := monitor }

/-- The row of an allocation comes before the locks in it are gone. -/
def freeEventInto (s : Session) (e : Event) : Writing Session := do
  let change := s.heap.free e.address e.time
  let monitor ← s.monitor.handAll change.outputs
  let s := { s with heap := change.heap, monitor := monitor }
  match change.answer with
  | none => return s
  | some a => do
    let (_, monitor) ← s.monitor.freeRangeInto a.base a.size e.time
    return { s with monitor := monitor }

/-- Follow one event. -/
def follow (s : Session) (e : Event) : Writing Session :=
  let s := s.note e
  match e.operation with
  | .access kind size => pure (s.buffer e kind size)
  | .alloc size => do
    let s ← s.flushInto none
    s.allocEventInto e size
  | .free => do
    let s ← s.flushInto none
    s.freeEventInto e
  | .acquire side irqSync flags => s.flushedLockEventInto e (.acquire side) irqSync flags
  | .release side flags => s.flushedLockEventInto e (.release side) .none flags

/-! ### The end of the trace -/

/-- Write what is left, and last of all ask the sink to flush. -/
def conclude (s : Session) : Writing Session := do
  let s ← s.flushInto none
  let monitor ← s.monitor.handIf (s.monitor.isIdle = false) (.remark (.closing s.lastTime))
  let monitor ← monitor.closeAllInto s.lastTime
  let change := s.heap.finish
  let monitor ← monitor.handAll (change.outputs ++ [.record .flush])
  return { s with heap := change.heap, monitor := monitor }

/-- Follow events and end the trace. -/
def followAll (s : Session) : List Event → Writing Session
  | [] => s.conclude
  | e :: es => do
    let s ← s.follow e
    s.followAll es

/-! ### What becomes of a sink -/

def stepInto (s : Session) (sink : Sink) (e : Event) : Sink.Settled Session := s.follow e sink

def finishInto (s : Session) (sink : Sink) : Sink.Settled Session := s.conclude sink

def runInto (s : Session) (sink : Sink) (es : List Event) : Sink.Settled Session :=
  s.followAll es sink

end LockTrace.Session
