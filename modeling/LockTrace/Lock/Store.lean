import LockTrace.AscMap
import LockTrace.Fatal
import LockTrace.Inconsistency
import LockTrace.Lock.Basic

/-!
# The live locks

A `LockStore` owns every live lock. A lock has a key that no other lock ever has, and an
address that it shares with no other live lock. Locks appear when their address is first
locked, and disappear when the memory around them is freed; a key whose lock is gone finds
nothing.
-/

namespace LockTrace

/-- The live locks by key, and the keys by address. -/
structure LockStore where
  locks : AscMap Nat Lock
  keyAt : AscMap UInt64 Nat
  keys : Counter
  subLockIds : Counter
deriving DecidableEq, Repr

/-- Where a new lock lies. -/
structure Placement where
  allocation : Option Nat
  varName : Option String
deriving DecidableEq, Repr

namespace LockStore

instance : EmptyCollection LockStore := ⟨⟨∅, ∅, .fromOne, .fromOne⟩⟩

instance : Inhabited LockStore := ⟨∅⟩

/-- The key of the live lock at an address. -/
def find? (s : LockStore) (address : UInt64) : Option Nat := s.keyAt.get? address

/-- The live lock with a given key. -/
def get? (s : LockStore) (key : Nat) : Option Lock := s.locks.get? key

/-- Change the lock with a given key, if it is live. -/
def modify (s : LockStore) (key : Nat) (f : Lock → Lock) : LockStore :=
  { s with locks := s.locks.modify key f }

/-- The number of live locks. -/
def size (s : LockStore) : Nat := s.locks.size

def isEmpty (s : LockStore) : Bool := s.locks.isEmpty

/-- How many sub-locks were numbered so far. -/
def subLockCount (s : LockStore) : Nat := s.subLockIds.issued

/-! ### Creating locks -/

/-- What a look-up that may create a lock gives: the key, the store, and the lock if it is
    new. -/
structure Found where
  key : Nat
  store : LockStore
  new : Option Lock
deriving DecidableEq, Repr

/-- Add a lock of a known kind at an address where there is none. The name of a pseudo-lock
    takes the place of a variable's name. -/
def create (s : LockStore) (address : UInt64) (label : String) (kind : LockKind)
    (placement : Placement) : Found :=
  let (subLocks, ids) := SubLocks.assign kind s.subLockIds
  let varName := (Lock.pseudoName? address).or placement.varName
  let lock := Lock.create address subLocks label placement.allocation varName
  let key := s.keys.next
  { key := key
    store :=
      { locks := s.locks.insert key lock
        keyAt := s.keyAt.insert address key
        keys := s.keys.advance
        subLockIds := ids }
    new := some lock }

/-- The lock at `address`; it is created if there is none, and then lies where `place` says.
    Only a new lock needs a label that is known. -/
def findOrCreate (s : LockStore) (address : UInt64) (label : String)
    (place : UInt64 → Placement) : Except Fatal Found :=
  match s.find? address with
  | some key => .ok ⟨key, s, none⟩
  | none =>
    match LockKind.ofLabel? label with
    | none => .error (.unknownLockType address label)
    | some kind => .ok (s.create address label kind (place address))

/-! ### Freeing memory -/

/-- The end of the range of `size` addresses from `base`. A range that would reach past the
    last address ends there. -/
def rangeEnd (base size : UInt64) : UInt64 :=
  UInt64.ofNat (min (base.toNat + size.toNat) (UInt64.size - 1))

/-- The report on a lock that is held while its memory is freed. -/
def freedReport? (l : Lock) (time base : UInt64) : Option Inconsistency :=
  if l.isHeld then
    let side := if 0 < l.writers then Side.writer else Side.reader
    some (.heldLockFreed (l.describe side) time base)
  else none

/-- What freeing a range does: the store without the locks of the range, how many they were,
    and the reports on those that were held. -/
structure Freed where
  store : LockStore
  count : Nat
  reports : List Inconsistency
deriving DecidableEq, Repr

/-- Remove every lock from `base` up to, but not including, the end of the range. -/
def freeRange (s : LockStore) (base size time : UInt64) : Freed :=
  let doomed := s.keyAt.between base (rangeEnd base size)
  { store :=
      doomed.foldl (fun s e => { s with locks := s.locks.erase e.2, keyAt := s.keyAt.erase e.1 }) s
    count := doomed.length
    reports := doomed.filterMap fun e => (s.get? e.2).bind (freedReport? · time base) }

end LockStore

end LockTrace
