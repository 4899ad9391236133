import LockTrace.Monitor.Step
import LockTrace.Writing

/-!
# The monitor at a sink

The work of the monitor with a sink at hand: every output is handed over where it arises, in
the middle of loops and between two changes of the state, and the first record that the sink
turns down ends it all. Each function here has a counterpart in `LockTrace.Monitor.Closing` or
`LockTrace.Monitor.Step` that only fills the journal. The journal is filled here as well.
-/

namespace LockTrace.Monitor

/-! ### Single outputs -/

def hand (m : Monitor) (o : Output) : Writing Monitor := do
  Writing.put o
  return { m with journal := m.journal.add o }

/-- Hand over an output under a condition. -/
def handIf (m : Monitor) (c : Prop) [Decidable c] (o : Output) : Writing Monitor :=
  if c then m.hand o else pure m

def handAll (m : Monitor) (os : List Output) : Writing Monitor := do
  Writing.putAll os
  return { m with journal := m.journal.addAll os }

/-! ### Closing transactions -/

/-- Hand over the rows on the sub-locks held while the transaction `txn` ran, and count them. -/
def emitHeld (txn : Nat) (time : UInt64) : List Nat → List Txn → Monitor → Writing Monitor
  | _, [], m => pure m
  | seen, t :: ts, m =>
    match m.locks.get? t.lock with
    | none => do
      let m ← m.hand (.report (.danglingLock time txn))
      emitHeld txn time seen ts m
    | some lock =>
      if lock.isHeld then
        match lock.history, lock.subLocks.id? t.side with
        | [], _ => do
          let m ← m.hand (.report (.anchor .missingPosition (lock.describe t.side) time txn))
          emitHeld txn time seen ts m
        | _ :: _, none => emitHeld txn time seen ts m
        | latest :: _, some id =>
          if id ∈ seen then emitHeld txn time seen ts m
          else do
            let m ← m.hand (.record (.held ⟨txn, id, latest.toAcquisition⟩))
            emitHeld txn time (id :: seen) ts
              { m with stats := { m.stats with heldRecords := m.stats.heldRecords + 1 } }
      else do
        let m ← m.hand (.report (.anchor .lockNotHeld (lock.describe t.side) time txn))
        emitHeld txn time seen ts m

/-- The row of the transaction comes first, then the rows on what it held. -/
def emitInto (m : Monitor) (time : UInt64) (top : Txn) (below : TxnStack) : Writing Monitor := do
  let m ← m.hand (.record (.txn ⟨top.id, top.start, time⟩))
  emitHeld top.id time [] (top :: below).reverse
    { m with stats := { m.stats with emitted := m.stats.emitted + 1 } }

def closeTopInto (m : Monitor) (time : UInt64) (top : Txn) (below : TxnStack) :
    Writing Monitor :=
  if m.skipEmpty ∧ top.accesses = 0 then do
    let m ← m.hand (.remark (.suppressed top.id))
    return { m with stats := { m.stats with suppressed := m.stats.suppressed + 1 } }
  else m.emitInto time top below

/-- Purging writes no record, so no sink can stop it. -/
def purgeReadersInto (m : Monitor) (key : Nat) (ctx : Int64) (time : UInt64) (s : TxnStack) :
    Writing (Monitor × TxnStack) := do
  let purged := m.purgeReaders key ctx time s
  Writing.putAll (purged.1.journal.since m.journal)
  return purged

def unwindInto (key : Nat) (side : Side) (ctx : Int64) (time : UInt64) (purge : Bool)
    (m : Monitor) : TxnStack → Writing Unwound
  | [] => pure ⟨m, [], false⟩
  | top :: below => do
    let m ← m.closeTopInto time top below
    if top.AnchoredAt key side then
      if purge then
        let (m, rest) ← m.purgeReadersInto key ctx time below
        return ⟨m, rest, true⟩
      else return ⟨m, below, true⟩
    else
      let m ← m.handIf (top.lock = key)
        (.report (.anchor .sideMismatch (m.describe key top.side) time top.id))
      let id := m.txnIds.next
      let m := { m with
        txnIds := m.txnIds.advance
        stats := { m.stats with reopened := m.stats.reopened + 1 } }
      let u ← unwindInto key side ctx time purge m below
      return { u with stack := top.reopened id time :: u.stack }

def closeTxnInto (m : Monitor) (key : Nat) (side : Side) (ctx : Int64) (time : UInt64)
    (purge : Bool) : Writing (Bool × Monitor) := do
  let u ← unwindInto key side ctx time purge m (m.stack ctx)
  return (u.found, u.monitor.setStack ctx u.stack)

def closeAnywhereInto (m : Monitor) (key : Nat) (side : Side) (ctx : Int64) (time : UInt64)
    (purge : Bool) : Writing (Bool × Monitor) :=
  match m.holder? key side ctx with
  | some owner => m.closeTxnInto key side owner time purge
  | none => pure (false, m)

/-! ### The end of a trace -/

def closeContextInto (ctx : Int64) (time : UInt64) : Nat → Monitor → Writing Monitor
  | 0, m => pure m
  | rounds + 1, m =>
    match m.stack ctx with
    | [] => pure m
    | top :: below => do
      let m ← m.hand (.remark (.stillActive (below.length + 1) ctx))
      let (_, m) ← m.closeTxnInto top.lock top.side ctx time false
      closeContextInto ctx time rounds m

def closeContextsInto (time : UInt64) : List Int64 → Monitor → Writing Monitor
  | [], m => pure m
  | ctx :: ctxs, m => do
    let m ← closeContextInto ctx time (m.stack ctx).length m
    closeContextsInto time ctxs m

def closeAllInto (m : Monitor) (time : UInt64) : Writing Monitor :=
  closeContextsInto time m.running.keys m

/-! ### Lock operations -/

def closeSideInto (key : Nat) (side : Side) (ctx : Int64) (time : UInt64) :
    Nat → Monitor → Writing Monitor
  | 0, m => pure m
  | rounds + 1, m => do
    let (found, m) ← m.closeAnywhereInto key side ctx time true
    if found then closeSideInto key side ctx time rounds m else return m

/-- Close the transactions of the side opposite to an acquisition, in all contexts. -/
def evictInto (m : Monitor) (key : Nat) (lock : Lock) (t : Transition) : Writing Monitor := do
  let other := t.op.side.other
  let desc := lock.describe t.op.side
  let m ← m.hand (.report (t.mismatch .otherSideHeld desc))
  let (closed, m) ← m.closeAnywhereInto key other t.ctx t.time true
  let m ← m.handIf (closed = false) (.report (t.mismatch .flushFailed desc))
  closeSideInto key other t.ctx t.time (m.countAnchored key other) m

def preemptInto (m : Monitor) (key : Nat) (lock : Lock) (t : Transition) : Writing Monitor := do
  let other := t.op.side.other
  let m ← m.evictInto key lock t
  match m.locks.get? key with
  | none => return m
  | some lock =>
    (m.modifyLock key (·.drain other)).handIf (lock.residual other ≠ 0)
      (.report (.inconsistentCount (lock.describe other) t.time (lock.residual other)))

def missedReleaseInto (m : Monitor) (key : Nat) (lock : Lock) (t : Transition) :
    Writing Monitor := do
  let side := t.op.side
  let m ← m.hand (.report (t.mismatch .alreadyHeld (lock.describe side)))
  let (closed, m) ← m.closeAnywhereInto key side t.ctx t.time false
  return if closed then m.modifyLock key (fun l => l.popPosition.endHold side) else m

def acquireInto (m : Monitor) (key : Nat) (lock : Lock) (t : Transition) : Writing Monitor :=
  match lock.acquireState t.op.side with
  | .contradictory => Writing.stop
    (.contradictoryState (lock.describe t.op.side) t.op t.time lock.readers lock.writers)
  | .otherSideHeld => do
    let m ← m.preemptInto key lock t
    return m.beginHold key t
  | .writerHeld =>
    if lock.isRecursive then pure (m.beginHold key t)
    else do
      let m ← m.missedReleaseInto key lock t
      return m.beginHold key t
  | .free => pure (m.beginHold key t)
  | .sharedReaders => pure (m.beginHold key t)

def closeReleasedInto (m : Monitor) (key : Nat) (lock : Lock) (t : Transition) :
    Writing Monitor :=
  let side := t.op.side
  if lock.history.isEmpty then m.hand (.report (t.mismatch .emptyHistory (lock.describe side)))
  else
    match m.holder? key side t.ctx with
    | none => m.hand (.report (t.mismatch .noRunningTxn (lock.describe side)))
    | some owner => do
      let (found, m) ← m.closeTxnInto key side owner t.time false
      return if found then m.modifyLock key Lock.popPosition else m

def releaseInto (m : Monitor) (key : Nat) (lock : Lock) (t : Transition) : Writing Monitor := do
  let side := t.op.side
  let m ← m.closeReleasedInto key lock t
  if lock.count side = 0 then m.hand (.report (t.mismatch .alreadyReleased (lock.describe side)))
  else return m.modifyLock key (·.endHold side)

def stepInto (m : Monitor) (key : Nat) (t : Transition) : Writing Monitor :=
  match m.locks.get? key with
  | none => pure m
  | some lock =>
    let lock := lock.setFlags t.flags
    let m := m.modifyLock key (·.setFlags t.flags)
    if lock.kind.supports t.op.side then
      match t.op with
      | .acquire _ => m.acquireInto key lock t
      | .release _ => m.releaseInto key lock t
    else m.hand (.report (t.mismatch .unsupportedSide (lock.describe t.op.side)))

/-! ### Locks -/

def findOrCreateInto (m : Monitor) (address : UInt64) (label : String) (flags : UInt32)
    (place : UInt64 → Placement) : Writing (Nat × Monitor) :=
  match m.locks.findOrCreate address label place with
  | .error cause => Writing.stop cause
  | .ok ⟨key, locks, none⟩ => pure (key, { m with locks := locks })
  | .ok ⟨key, locks, some new⟩ => do
    let m ← { m with locks := locks.modify key (·.setFlags flags) }.handAll
      (lockRows (new.setFlags flags))
    return (key, m)

def freeRangeInto (m : Monitor) (base size time : UInt64) : Writing (Nat × Monitor) := do
  let freed := m.locks.freeRange base size time
  let m ← { m with locks := freed.store }.handAll (freed.reports.map .report)
  return (freed.count, m)

end LockTrace.Monitor
