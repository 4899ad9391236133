import LockTrace.AscMap
import LockTrace.Lock.Side
import LockTrace.Text.Numeral

/-!
# Inconsistencies

Traces are damaged: operations are missing, doubled, or recorded in the wrong context. An
inconsistency is such a damage, found and repaired on the way. It stops nothing; it is
reported as a message and counted by kind in a `Tally`.
-/

namespace LockTrace

/-- How a lock operation can disagree with the state of its lock. -/
inductive OperationFault where
  | otherSideHeld
  | flushFailed
  | alreadyHeld
  | alreadyReleased
  | emptyHistory
  | noRunningTxn
  | unsupportedSide
deriving DecidableEq, Repr

/-- How a transaction can disagree with the lock at which it is anchored. -/
inductive AnchorFault where
  | lockNotHeld
  | missingPosition
  | sideMismatch
deriving DecidableEq, Repr

/-- A damage in a trace. `lock` describes one side of a lock. -/
inductive Inconsistency where
  | operation (fault : OperationFault) (lock : String) (op : LockOp) (time : UInt64) (ctx : Int64)
  | anchor (fault : AnchorFault) (lock : String) (time : UInt64) (txn : Nat)
  | inconsistentCount (lock : String) (time : UInt64) (residual : Int)
  | danglingLock (time : UInt64) (txn : Nat)
  | multipleWriterTxns (lock : String) (time : UInt64) (ctx : Int64)
  | heldLockFreed (lock : String) (time : UInt64) (base : UInt64)
  | duplicateAllocation (base : UInt64) (time : UInt64)
  | unknownFree (base : UInt64) (time : UInt64)
  | unknownDataType (name : String) (time : UInt64)
deriving DecidableEq, Repr

/-! ### Names and messages -/

/-- The stable name under which a fault is counted. -/
def OperationFault.name : OperationFault → String
  | otherSideHeld => "other_side_held"
  | flushFailed => "flush_failed"
  | alreadyHeld => "already_held"
  | alreadyReleased => "already_released"
  | emptyHistory => "empty_history"
  | noRunningTxn => "no_running_txn"
  | unsupportedSide => "unsupported_side"

def OperationFault.explanation : OperationFault → String
  | otherSideHeld => "other side is already being held"
  | flushFailed => "cannot flush the other side, no TXN found"
  | alreadyHeld => "lock is already being held"
  | alreadyReleased => "lock has already been released"
  | emptyHistory => "no last locking position known, cannot pop"
  | noRunningTxn => "TXN: V() but no running TXN"
  | unsupportedSide => "operation does not apply to this kind of lock"

def AnchorFault.name : AnchorFault → String
  | lockNotHeld => "lock_not_held"
  | missingPosition => "missing_position"
  | sideMismatch => "side_mismatch"

def AnchorFault.explanation : AnchorFault → String
  | lockNotHeld => "lock is part of the TXN hierarchy but not held"
  | missingPosition => "lock is held but has no locking position"
  | sideMismatch => "sub-lock does not match the released one"

namespace Inconsistency

/-- The stable name under which an inconsistency is counted. -/
def name : Inconsistency → String
  | operation fault .. => fault.name
  | anchor fault .. => fault.name
  | inconsistentCount .. => "inconsistent_count"
  | danglingLock .. => "dangling_lock"
  | multipleWriterTxns .. => "multiple_writer_txns"
  | heldLockFreed .. => "held_lock_freed"
  | duplicateAllocation .. => "duplicate_allocation"
  | unknownFree .. => "unknown_free"
  | unknownDataType .. => "unknown_data_type"

open Numeral (decimal signed)

/-- The message by which an inconsistency is reported. -/
def message : Inconsistency → String
  | operation fault lock op time ctx =>
    lock ++ " (" ++ op.name ++ ", ts=" ++ decimal time.toNat ++ ", ctx=" ++ signed ctx.toInt ++
      "): " ++ fault.explanation
  | anchor fault lock time txn =>
    lock ++ " (ts=" ++ decimal time.toNat ++ ", txn=" ++ decimal txn ++ "): " ++ fault.explanation
  | inconsistentCount lock time residual =>
    lock ++ " (ts=" ++ decimal time.toNat ++ "): inconsistent count, " ++ signed residual ++
      " acquisitions without position"
  | danglingLock time txn =>
    "TXN " ++ decimal txn ++ " (ts=" ++ decimal time.toNat ++
      ") references a lock whose memory has been freed"
  | multipleWriterTxns lock time ctx =>
    lock ++ " (ts=" ++ decimal time.toNat ++ ", ctx=" ++ signed ctx.toInt ++
      "): multiple active TXNs for one writer lock"
  | heldLockFreed lock time base =>
    lock ++ " (ts=" ++ decimal time.toNat ++ "): lock is being freed but held (allocation at " ++
      Numeral.address base ++ ")"
  | duplicateAllocation base time =>
    "Found active allocation at address " ++ Numeral.address base ++ " (ts=" ++
      decimal time.toNat ++ ")"
  | unknownFree base time =>
    "Didn't find active allocation for address " ++ Numeral.address base ++ " (ts=" ++
      decimal time.toNat ++ ")"
  | unknownDataType name time =>
    "Found unknown datatype '" ++ name ++ "' (ts=" ++ decimal time.toNat ++ ")"

end Inconsistency

/-! ### Counting by kind -/

/-- How many inconsistencies of each kind were reported, without a bound. Kinds that did not
    occur have no entry. -/
structure Tally where
  counts : AscMap String Nat
deriving DecidableEq, Repr

namespace Tally

instance : EmptyCollection Tally := ⟨⟨∅⟩⟩

instance : Inhabited Tally := ⟨∅⟩

/-- Count one more inconsistency. -/
def record (t : Tally) (i : Inconsistency) : Tally :=
  ⟨t.counts.upsert i.name (fun n => n.getD 0 + 1)⟩

/-- The count of the kind with a given name. -/
def count (t : Tally) (name : String) : Nat := (t.counts.get? name).getD 0

/-- The count of all kinds together. -/
def total (t : Tally) : Nat := t.counts.total

def isEmpty (t : Tally) : Bool := t.counts.isEmpty

theorem count_record (t : Tally) (i : Inconsistency) (name : String) :
    (t.record i).count name = if i.name = name then t.count name + 1 else t.count name := by
  unfold count record AscMap.upsert
  rw [AscMap.get?_insert]
  split
  · next h => subst h; rfl
  · rfl

end Tally

end LockTrace
