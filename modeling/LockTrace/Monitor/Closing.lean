import LockTrace.Monitor.Basic

/-!
# Closing transactions

Releases come in any order, so the transaction to close need not be the innermost one of
its context. Those above it are closed with it and opened again right away under new
numbers, as the intervals that follow.

A closed transaction is written together with a row for each sub-lock that was held while
it ran: its own and those of the transactions below it.
-/

namespace LockTrace

/-! ### The rows of a closed transaction -/

/-- The outputs for the sub-locks held while the transaction `txn` ran, from the
    transactions `stack`, the outermost first. The sub-locks in `seen` have their row. -/
def LockStore.heldOutputs (locks : LockStore) (txn : Nat) (time : UInt64) :
    List Nat → List Txn → List Output
  | _, [] => []
  | seen, t :: ts =>
    match locks.get? t.lock with
    | none => .report (.danglingLock time txn) :: heldOutputs locks txn time seen ts
    | some lock =>
      if lock.isHeld then
        match lock.history, lock.subLocks.id? t.side with
        | [], _ =>
          .report (.anchor .missingPosition (lock.describe t.side) time txn) ::
            heldOutputs locks txn time seen ts
        | _ :: _, none => heldOutputs locks txn time seen ts
        | latest :: _, some id =>
          if id ∈ seen then heldOutputs locks txn time seen ts
          else
            .record (.held ⟨txn, id, latest.toAcquisition⟩) ::
              heldOutputs locks txn time (id :: seen) ts
      else
        .report (.anchor .lockNotHeld (lock.describe t.side) time txn) ::
          heldOutputs locks txn time seen ts

/-- The number of records among some outputs. -/
def Output.recordCount (os : List Output) : Nat := os.countP (fun o => o.record?.isSome)

namespace Monitor

/-- Write the transaction `top` with the locks held while it ran. Below it on its stack lie
    the transactions `below`, the innermost first. -/
def emit (m : Monitor) (time : UInt64) (top : Txn) (below : TxnStack) : Monitor :=
  let held := m.locks.heldOutputs top.id time [] (top :: below).reverse
  { m with
    journal := (m.journal.add (.record (.txn ⟨top.id, top.start, time⟩))).addAll held
    stats := { m.stats with
      emitted := m.stats.emitted + 1
      heldRecords := m.stats.heldRecords + Output.recordCount held } }

/-- Close the transaction `top`, which lies on `below`: it is written, unless it had no
    accesses and such transactions leave no row. -/
def closeTop (m : Monitor) (time : UInt64) (top : Txn) (below : TxnStack) : Monitor :=
  if m.skipEmpty ∧ top.accesses = 0 then
    { m.remark (.suppressed top.id) with
      stats := { m.stats with suppressed := m.stats.suppressed + 1 } }
  else m.emit time top below

/-! ### Unwinding a stack -/

/-- The text for one side of a lock in a report, empty for a lock that is gone. -/
def describe (m : Monitor) (key : Nat) (side : Side) : String :=
  ((m.locks.get? key).map (·.describe side)).getD ""

/-- Drop the reader's transactions of a lock from a stack. A writer's transaction of the
    same lock stays and is reported. -/
def purgeReaders (m : Monitor) (key : Nat) (ctx : Int64) (time : UInt64) (s : TxnStack) :
    Monitor × TxnStack :=
  let purged := s.filter (fun t => decide (t.AnchoredAt key .reader))
  let writers := s.filter (fun t => decide (t.AnchoredAt key .writer))
  let remarks := purged.reverse.map fun t => Output.remark (.purged t.id ctx time)
  let reports := writers.map fun _ =>
    Output.report (.multipleWriterTxns (m.describe key .writer) time ctx)
  ({ m with journal := m.journal.addAll (remarks ++ reports) }, s.dropAnchor key .reader)

/-- What unwinding a stack gives: the monitor, the stack as it is then, and whether the
    transaction looked for was there. -/
structure Unwound where
  monitor : Monitor
  stack : TxnStack
  found : Bool
deriving DecidableEq, Repr

/-- Close the innermost transaction anchored at (`key`, `side`). Every transaction above it
    is closed too and opened again at `time`, with the same anchor and a new number. With
    `purge` the reader's transactions of the lock below it are dropped as well. -/
def unwind (key : Nat) (side : Side) (ctx : Int64) (time : UInt64) (purge : Bool) (m : Monitor) :
    TxnStack → Unwound
  | [] => ⟨m, [], false⟩
  | top :: below =>
    let m := m.closeTop time top below
    if top.AnchoredAt key side then
      if purge then
        let (m, rest) := m.purgeReaders key ctx time below
        ⟨m, rest, true⟩
      else ⟨m, below, true⟩
    else
      let m :=
        if top.lock = key then
          m.report (.anchor .sideMismatch (m.describe key top.side) time top.id)
        else m
      let id := m.txnIds.next
      let m := { m with
        txnIds := m.txnIds.advance
        stats := { m.stats with reopened := m.stats.reopened + 1 } }
      let u := unwind key side ctx time purge m below
      { u with stack := top.reopened id time :: u.stack }

/-- Close the innermost transaction of `ctx` that is anchored at (`key`, `side`), and say
    whether there was one. -/
def closeTxn (m : Monitor) (key : Nat) (side : Side) (ctx : Int64) (time : UInt64)
    (purge : Bool) : Bool × Monitor :=
  let u := unwind key side ctx time purge m (m.stack ctx)
  (u.found, u.monitor.setStack ctx u.stack)

/-- Close a transaction anchored at (`key`, `side`) wherever it is, and say whether there
    was one. -/
def closeAnywhere (m : Monitor) (key : Nat) (side : Side) (ctx : Int64) (time : UInt64)
    (purge : Bool) : Bool × Monitor :=
  match m.holder? key side ctx with
  | some owner => m.closeTxn key side owner time purge
  | none => (false, m)

/-! ### The end of a trace -/

/-- Close the transactions of a context as if their locks were released at `time`, the
    innermost first, for at most the given number of rounds. -/
def closeContext (ctx : Int64) (time : UInt64) : Nat → Monitor → Monitor
  | 0, m => m
  | rounds + 1, m =>
    match m.stack ctx with
    | [] => m
    | top :: below =>
      let m := m.remark (.stillActive (below.length + 1) ctx)
      closeContext ctx time rounds (m.closeTxn top.lock top.side ctx time false).2

/-- Close every open transaction at `time`, one context after the other. A round closes one
    transaction, so a context takes as many rounds as it has transactions. -/
def closeAll (m : Monitor) (time : UInt64) : Monitor :=
  m.running.keys.foldl (fun m ctx => closeContext ctx time (m.stack ctx).length m) m

end Monitor

end LockTrace
