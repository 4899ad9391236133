import LockTrace.Journal
import LockTrace.Lock.Store
import LockTrace.Transaction

/-!
# The monitor

The monitor watches lock operations. It knows the live locks and, for every context, the
stack of its open transactions. Contexts without an open transaction have no entry among
the stacks. What the monitor has to say goes into its journal.

This module holds the state and the questions that can be asked about it. Closing
transactions is in `LockTrace.Monitor.Closing`, lock operations are in
`LockTrace.Monitor.Step`.
-/

namespace LockTrace

/-- What the monitor did so far, in numbers without a bound. Counters of 64 bits are the same as
    long as they stay below `2 ^ 64`; this holds of `EventCounts`, `Summary` and `Tally` too. -/
structure Stats where
  /-- Transactions opened by an acquisition. -/
  opened : Nat
  /-- Transactions written. -/
  emitted : Nat
  /-- Transactions closed without a row. -/
  suppressed : Nat
  /-- Transactions opened because one below them was closed. -/
  reopened : Nat
  /-- Rows on held locks written. -/
  heldRecords : Nat
deriving DecidableEq, Repr

def Stats.zero : Stats := ⟨0, 0, 0, 0, 0⟩

/-- The locks, the open transactions and the journal. -/
structure Monitor where
  locks : LockStore
  /-- The open transactions by context. -/
  running : AscMap Int64 TxnStack
  txnIds : Counter
  /-- Whether transactions without accesses leave no row. -/
  skipEmpty : Bool
  journal : Journal
  stats : Stats
deriving DecidableEq, Repr

namespace Monitor

/-- The monitor at the start of a trace. -/
def initial (skipEmpty : Bool) : Monitor where
  locks := ∅
  running := ∅
  txnIds := .fromOne
  skipEmpty := skipEmpty
  journal := ∅
  stats := .zero

instance : Inhabited Monitor := ⟨initial false⟩

/-! ### The journal -/

def write (m : Monitor) (r : Record) : Monitor := { m with journal := m.journal.add (.record r) }

def report (m : Monitor) (i : Inconsistency) : Monitor :=
  { m with journal := m.journal.add (.report i) }

def remark (m : Monitor) (r : Remark) : Monitor := { m with journal := m.journal.add (.remark r) }

/-! ### Stacks -/

/-- The stack of a context; a context without an entry has no open transaction. -/
def stack (m : Monitor) (ctx : Int64) : TxnStack := (m.running.get? ctx).getD []

/-- Replace the stack of a context. An empty stack leaves no entry. -/
def setStack (m : Monitor) (ctx : Int64) (s : TxnStack) : Monitor :=
  { m with running := if s.isEmpty then m.running.erase ctx else m.running.insert ctx s }

/-- The innermost transaction of a context. -/
def innermost? (m : Monitor) (ctx : Int64) : Option Txn := (m.stack ctx).head?

/-- Whether no context has an open transaction. -/
def isIdle (m : Monitor) : Bool := m.running.values.all List.isEmpty

/-- How many open transactions of all contexts are anchored at a sub-lock. -/
def countAnchored (m : Monitor) (lock : Nat) (side : Side) : Nat :=
  TxnStack.countAnchored m.running.values.flatten lock side

/-- A context with an open transaction anchored at a sub-lock: `ctx` itself if it has one,
    and otherwise the smallest one that has. -/
def holder? (m : Monitor) (lock : Nat) (side : Side) (ctx : Int64) : Option Int64 :=
  if (m.stack ctx).HasAnchor lock side then some ctx
  else (m.running.entries.find? (fun e => decide (TxnStack.HasAnchor e.2 lock side))).map Prod.fst

/-! ### Opening transactions and counting accesses -/

/-- Open a transaction on top of the stack of `ctx`. -/
def openTxn (m : Monitor) (lock : Nat) (side : Side) (ctx : Int64) (time : UInt64) : Monitor :=
  let t := Txn.opened m.txnIds.next time lock side
  let m := { m with
    txnIds := m.txnIds.advance
    stats := { m.stats with opened := m.stats.opened + 1 } }
  m.setStack ctx (t :: m.stack ctx)

/-- Count one access for the innermost transaction of `ctx`. -/
def countAccess (m : Monitor) (ctx : Int64) : Monitor :=
  m.setStack ctx ((m.stack ctx).addAccesses 1)

/-! ### Locks -/

/-- Change the lock with a given key. -/
def modifyLock (m : Monitor) (key : Nat) (f : Lock → Lock) : Monitor :=
  { m with locks := m.locks.modify key f }

/-- The rows of a new lock. -/
def lockRows (l : Lock) : List Output :=
  l.subLocks.sides.map fun (side, id) =>
    .record (.lock
      { id := id
        address := l.address
        allocation := l.allocation
        label := l.label
        side := side
        varName := l.varName
        flags := l.flags })

/-- The lock at an address, and the monitor that knows it. A new lock takes the flags of the
    operation that creates it, and its rows are written. -/
def findOrCreate (m : Monitor) (address : UInt64) (label : String) (flags : UInt32)
    (place : UInt64 → Placement) : Except Fatal (Nat × Monitor) :=
  match m.locks.findOrCreate address label place with
  | .error cause => .error cause
  | .ok ⟨key, locks, none⟩ => .ok (key, { m with locks := locks })
  | .ok ⟨key, locks, some new⟩ =>
    .ok (key,
      { m with
        locks := locks.modify key (·.setFlags flags)
        journal := m.journal.addAll (lockRows (new.setFlags flags)) })

/-- Forget every lock in the range of `size` addresses from `base`, and say how many. -/
def freeRange (m : Monitor) (base size time : UInt64) : Nat × Monitor :=
  let freed := m.locks.freeRange base size time
  (freed.count,
    { m with
      locks := freed.store
      journal := m.journal.addAll (freed.reports.map .report) })

end Monitor

end LockTrace
