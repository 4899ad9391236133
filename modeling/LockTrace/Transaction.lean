import LockTrace.Lock.Side

/-!
# Transactions and their stacks

A transaction is an interval during which one sub-lock is the innermost one that its
context holds. It is anchored at that sub-lock: at a lock, given by its key, and a side.
The open transactions of a context form a stack.
-/

namespace LockTrace

/-- An open transaction. -/
structure Txn where
  id : Nat
  start : UInt64
  lock : Nat
  side : Side
  /-- The number of accesses that were attributed to the transaction so far, without a bound. -/
  accesses : Nat
deriving DecidableEq, Repr

namespace Txn

/-- A transaction without accesses. -/
def opened (id : Nat) (start : UInt64) (lock : Nat) (side : Side) : Txn :=
  ⟨id, start, lock, side, 0⟩

def AnchoredAt (t : Txn) (lock : Nat) (side : Side) : Prop :=
  t.lock = lock ∧ t.side = side

instance (t : Txn) (lock : Nat) (side : Side) : Decidable (t.AnchoredAt lock side) :=
  inferInstanceAs (Decidable (_ ∧ _))

/-- The interval from `start` on with the same anchor, under a new number. -/
def reopened (t : Txn) (id : Nat) (start : UInt64) : Txn := opened id start t.lock t.side

end Txn

/-- The open transactions of a context, the innermost first. -/
abbrev TxnStack := List Txn

namespace TxnStack

/-- Whether a transaction of the stack is anchored at a sub-lock. -/
def HasAnchor (s : TxnStack) (lock : Nat) (side : Side) : Prop :=
  ∃ t ∈ s, t.AnchoredAt lock side

instance (s : TxnStack) (lock : Nat) (side : Side) : Decidable (HasAnchor s lock side) :=
  inferInstanceAs (Decidable (∃ t ∈ s, t.AnchoredAt lock side))

/-- How many transactions of the stack are anchored at a sub-lock. -/
def countAnchored (s : TxnStack) (lock : Nat) (side : Side) : Nat :=
  s.countP (fun t => decide (t.AnchoredAt lock side))

/-- The stack after `n` more accesses of its innermost transaction. -/
def addAccesses (s : TxnStack) (n : Nat) : TxnStack :=
  match s with
  | [] => []
  | top :: below => { top with accesses := top.accesses + n } :: below

/-- The stack without the transactions of one lock. -/
def dropLock (s : TxnStack) (lock : Nat) : TxnStack :=
  s.filter (fun t => decide (t.lock ≠ lock))

/-- The stack without the transactions anchored at one sub-lock. -/
def dropAnchor (s : TxnStack) (lock : Nat) (side : Side) : TxnStack :=
  s.filter (fun t => decide (¬ t.AnchoredAt lock side))

end TxnStack

end LockTrace
