import LockTrace.Monitor.Step
import LockTrace.Proofs.LiveLocks
import LockTrace.Proofs.Unwinding

/-!
# The calls of a monitor

Following a trace uses a monitor by four calls (`Call`). Transactions can also be opened and
closed without a lock operation, and all of them can be closed at once (`AnyCall`). Such
calls know nothing about locks, and bring stacks and locks out of step.

A call whose records find no room ends early. What it has done to the stacks by then depends
on the record that was turned down; what it has done to the locks does not (`Attempt`).
-/

namespace LockTrace

/-! ### Calls -/

/-- What following a trace asks of a monitor. -/
inductive Call where
  /-- Look up the lock at an address, and create it if there is none. -/
  | locate (address : UInt64) (label : String) (flags : UInt32) (place : UInt64 → Placement)
  /-- Apply an operation to the lock with a given key. -/
  | operate (key : Nat) (t : Transition)
  /-- Count one access of a context. -/
  | countAccess (ctx : Int64)
  /-- Forget the locks of a range. -/
  | freeRange (base size time : UInt64)

/-- Everything that can be asked of a monitor. -/
inductive AnyCall where
  | regular (c : Call)
  | openTxn (key : Nat) (side : Side) (ctx : Int64) (time : UInt64)
  | closeTxn (key : Nat) (side : Side) (ctx : Int64) (time : UInt64) (purge : Bool)
  | closeAll (time : UInt64)

namespace Monitor

/-- The monitor after a call, and the cause to stop if there is one. The look-up of a lock
    whose label is not known leaves the monitor as it is. -/
def call (m : Monitor) : Call → Monitor × Option Fatal
  | .locate address label flags place =>
    match m.findOrCreate address label flags place with
    | .error cause => (m, some cause)
    | .ok (_, m) => (m, none)
  | .operate key t => m.step key t
  | .countAccess ctx => (m.countAccess ctx, none)
  | .freeRange base size time => ((m.freeRange base size time).2, none)

def calls (m : Monitor) (cs : List Call) : Monitor := cs.foldl (fun m c => (m.call c).1) m

/-- The monitor after a call of any sort. -/
def anyCall (m : Monitor) : AnyCall → Monitor
  | .regular c => (m.call c).1
  | .openTxn key side ctx time => m.openTxn key side ctx time
  | .closeTxn key side ctx time purge => (m.closeTxn key side ctx time purge).2
  | .closeAll time => m.closeAll time

/-! ### Calls that end early -/

/-- The locks after a call that ended early. A new lock is there when its rows are written,
    and an operation has set the flags of its lock before anything is written. -/
def locksWhenCut (m : Monitor) : AnyCall → LockStore
  | .regular (.locate address label flags place) =>
    match m.findOrCreate address label flags place with
    | .error _ => m.locks
    | .ok (_, m) => m.locks
  | .regular (.operate key t) => m.locks.modify key (·.setFlags t.flags)
  | _ => m.locks

end Monitor

/-- A call, and whether it was carried through. Of a call that ended early the locks are
    known, and the rest of the monitor may be anything. -/
inductive Attempt where
  | done (c : AnyCall)
  | cut (c : AnyCall) (rest : Monitor)

namespace Monitor

/-- The monitor after an attempt. -/
def attempt (m : Monitor) : Attempt → Monitor
  | .done c => m.anyCall c
  | .cut c rest => { rest with locks := m.locksWhenCut c }

def attempts (m : Monitor) (as : List Attempt) : Monitor := as.foldl attempt m

/-! ### Looking up a lock -/

/-- The monitor with a new lock at an address, whose rows are written. -/
def withLock (m : Monitor) (address : UInt64) (label : String) (kind : LockKind)
    (flags : UInt32) (placement : Placement) : Monitor :=
  { m with
    locks := (m.locks.create address label kind placement).store.modify m.locks.keys.next
      (·.setFlags flags)
    journal := m.journal.addAll
      (lockRows ((m.locks.newLock address label kind placement).setFlags flags)) }

theorem get?_withLock (m : Monitor) (address : UInt64) (label : String) (kind : LockKind)
    (flags : UInt32) (placement : Placement) (key : Nat) :
    (m.withLock address label kind flags placement).locks.get? key =
      if m.locks.keys.next = key then
        some ((m.locks.newLock address label kind placement).setFlags flags)
      else m.locks.get? key := by
  refine (LockStore.get?_modify _ _ _ _).trans ?_
  rw [LockStore.get?_create]
  split <;> rfl

/-- A lock is looked up in one of three ways: it is there, it is created, or its label is not
    known. -/
theorem findOrCreate_cases (m : Monitor) (address : UInt64) (label : String) (flags : UInt32)
    (place : UInt64 → Placement) :
    (∃ key, m.locks.find? address = some key ∧
      m.findOrCreate address label flags place = .ok (key, m)) ∨
    (∃ kind, m.locks.find? address = none ∧ LockKind.ofLabel? label = some kind ∧
      m.findOrCreate address label flags place =
        .ok (m.locks.keys.next, m.withLock address label kind flags (place address))) ∨
    (m.locks.find? address = none ∧ LockKind.ofLabel? label = none ∧
      m.findOrCreate address label flags place = .error (.unknownLockType address label)) := by
  unfold findOrCreate
  rcases m.locks.findOrCreate_cases address label place with
    ⟨key, hfind, heq⟩ | ⟨kind, hfind, hlabel, heq⟩ | ⟨hfind, hlabel, heq⟩
  · rw [heq]
    exact Or.inl ⟨key, hfind, rfl⟩
  · rw [heq]
    exact Or.inr (Or.inl ⟨kind, hfind, hlabel, rfl⟩)
  · rw [heq]
    exact Or.inr (Or.inr ⟨hfind, hlabel, rfl⟩)

/-- A lock that was looked up was there or is new. -/
theorem findOrCreate_ok {m m' : Monitor} {address : UInt64} {label : String} {flags : UInt32}
    {place : UInt64 → Placement} {key : Nat}
    (h : m.findOrCreate address label flags place = .ok (key, m')) :
    m' = m ∨ ∃ kind, m' = m.withLock address label kind flags (place address) := by
  rcases m.findOrCreate_cases address label flags place with
    ⟨k, _, heq⟩ | ⟨kind, _, _, heq⟩ | ⟨_, _, heq⟩
  · cases heq.symm.trans h
    exact Or.inl rfl
  · cases heq.symm.trans h
    exact Or.inr ⟨kind, rfl⟩
  · cases heq.symm.trans h

theorem call_locate (m : Monitor) (address : UInt64) (label : String) (flags : UInt32)
    (place : UInt64 → Placement) :
    (m.call (.locate address label flags place)).1 = m ∨
      ∃ kind, (m.call (.locate address label flags place)).1 =
        m.withLock address label kind flags (place address) := by
  simp only [call]
  cases hfound : m.findOrCreate address label flags place with
  | error cause => exact Or.inl rfl
  | ok found => exact findOrCreate_ok hfound

theorem findOrCreate_of_find? {m : Monitor} {address : UInt64} {key : Nat}
    (hfind : m.locks.find? address = some key) (label : String) (flags : UInt32)
    (place : UInt64 → Placement) : m.findOrCreate address label flags place = .ok (key, m) := by
  rcases m.findOrCreate_cases address label flags place with
    ⟨k, hk, heq⟩ | ⟨_, hnone, _⟩ | ⟨hnone, _⟩
  · rw [hfind] at hk
    cases hk
    exact heq
  · rw [hfind] at hnone
    cases hnone
  · rw [hfind] at hnone
    cases hnone

end Monitor

end LockTrace
