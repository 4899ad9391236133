import LockTrace.Monitor.Closing

/-!
# Lock operations

One lock operation changes one lock and, as far as the trace is sound, one stack. An
acquisition counts a hold, remembers its position and opens a transaction; a release undoes
the three. Where the operation does not fit the state of the lock, the trace has missed
something: the disagreement is reported, and the state is brought to where it would be had
the missing operation been seen.
-/

namespace LockTrace

/-- A lock operation together with where and how it happened. -/
structure Transition where
  op : LockOp
  ctx : Int64
  time : UInt64
  site : Site
  preemptCount : UInt64
  irqSync : IrqSync
  flags : UInt32
deriving DecidableEq, Repr

/-- The position that an acquisition leaves in the history of its lock. -/
def Transition.position (t : Transition) : Position where
  start := t.time
  site := t.site
  preemptCount := t.preemptCount
  irqSync := t.irqSync
  side := t.op.side

/-- The report that an operation does not fit. -/
def Transition.mismatch (t : Transition) (fault : OperationFault) (lock : String) :
    Inconsistency :=
  .operation fault lock t.op t.time t.ctx

namespace Monitor

/-! ### Acquisitions -/

/-- Close transactions anchored at one side of a lock until none is left, for at most the
    given number of rounds. -/
def closeSide (key : Nat) (side : Side) (ctx : Int64) (time : UInt64) : Nat → Monitor → Monitor
  | 0, m => m
  | rounds + 1, m =>
    match m.closeAnywhere key side ctx time true with
    | (true, m) => closeSide key side ctx time rounds m
    | (false, m) => m

/-- Take a lock away from the holders of the side `other`, wherever they are: their
    transactions are closed and their holds forgotten. -/
def preempt (m : Monitor) (key : Nat) (lock : Lock) (t : Transition) : Monitor :=
  let other := t.op.side.other
  let desc := lock.describe t.op.side
  let m := m.report (t.mismatch .otherSideHeld desc)
  let (closed, m) := m.closeAnywhere key other t.ctx t.time true
  let m := if closed then m else m.report (t.mismatch .flushFailed desc)
  let m := closeSide key other t.ctx t.time (m.countAnchored key other) m
  match m.locks.get? key with
  | none => m
  | some lock =>
    let m := m.modifyLock key (·.drain other)
    if lock.residual other = 0 then m
    else m.report (.inconsistentCount (lock.describe other) t.time (lock.residual other))

/-- Make up for a release that the trace has missed: close one transaction of the writer and
    end its hold. -/
def missedRelease (m : Monitor) (key : Nat) (lock : Lock) (t : Transition) : Monitor :=
  let side := t.op.side
  let m := m.report (t.mismatch .alreadyHeld (lock.describe side))
  let (closed, m) := m.closeAnywhere key side t.ctx t.time false
  if closed then m.modifyLock key (fun l => l.popPosition.endHold side) else m

/-- Count the hold and open its transaction. -/
def beginHold (m : Monitor) (key : Nat) (t : Transition) : Monitor :=
  (m.modifyLock key (·.beginHold t.position)).openTxn key t.op.side t.ctx t.time

/-- Acquire a side of a lock. -/
def acquire (m : Monitor) (key : Nat) (lock : Lock) (t : Transition) :
    Monitor × Option Fatal :=
  match lock.acquireState t.op.side with
  | .contradictory =>
    (m, some (.contradictoryState (lock.describe t.op.side) t.op t.time lock.readers lock.writers))
  | .otherSideHeld => ((m.preempt key lock t).beginHold key t, none)
  | .writerHeld =>
    if lock.isRecursive then (m.beginHold key t, none)
    else ((m.missedRelease key lock t).beginHold key t, none)
  | .free => (m.beginHold key t, none)
  | .sharedReaders => (m.beginHold key t, none)

/-! ### Releases -/

/-- Close the transaction that a release ends, and forget the position. -/
def closeReleased (m : Monitor) (key : Nat) (lock : Lock) (t : Transition) : Monitor :=
  let side := t.op.side
  if lock.history.isEmpty then m.report (t.mismatch .emptyHistory (lock.describe side))
  else
    match m.holder? key side t.ctx with
    | none => m.report (t.mismatch .noRunningTxn (lock.describe side))
    | some owner =>
      let (found, m) := m.closeTxn key side owner t.time false
      if found then m.modifyLock key Lock.popPosition else m

/-- Release a side of a lock. -/
def release (m : Monitor) (key : Nat) (lock : Lock) (t : Transition) : Monitor :=
  let side := t.op.side
  let m := m.closeReleased key lock t
  if lock.count side = 0 then m.report (t.mismatch .alreadyReleased (lock.describe side))
  else m.modifyLock key (·.endHold side)

/-! ### One operation -/

/-- Apply an operation to the lock with a given key. A key without a live lock does nothing.
    The operation is the last one if a cause to stop comes with it. -/
def step (m : Monitor) (key : Nat) (t : Transition) : Monitor × Option Fatal :=
  match m.locks.get? key with
  | none => (m, none)
  | some lock =>
    let lock := lock.setFlags t.flags
    let m := m.modifyLock key (·.setFlags t.flags)
    if lock.kind.supports t.op.side then
      match t.op with
      | .acquire _ => m.acquire key lock t
      | .release _ => (m.release key lock t, none)
    else (m.report (t.mismatch .unsupportedSide (lock.describe t.op.side)), none)

end Monitor

end LockTrace
