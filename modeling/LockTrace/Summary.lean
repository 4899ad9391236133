import LockTrace.Event
import LockTrace.Inconsistency
import LockTrace.Monitor.Basic

/-!
# The summary of a conversion

What a conversion has read, written and found suspicious, in numbers.
-/

namespace LockTrace

/-- How many events of each kind a trace has, without a bound. -/
structure EventCounts where
  total : Nat
  allocs : Nat
  frees : Nat
  acquires : Nat
  releases : Nat
  reads : Nat
  writes : Nat
  /-- Lock operations on types of locks that are not modelled. -/
  ignored : Nat
deriving DecidableEq, Repr

namespace EventCounts

def zero : EventCounts := ⟨0, 0, 0, 0, 0, 0, 0, 0⟩

/-- Count one more event. -/
def record (c : EventCounts) (op : Operation) : EventCounts :=
  let c := { c with total := c.total + 1 }
  match op with
  | .alloc _ => { c with allocs := c.allocs + 1 }
  | .free => { c with frees := c.frees + 1 }
  | .acquire .. => { c with acquires := c.acquires + 1 }
  | .release .. => { c with releases := c.releases + 1 }
  | .access .read _ => { c with reads := c.reads + 1 }
  | .access .write _ => { c with writes := c.writes + 1 }

end EventCounts

/-- The numbers of a conversion, each without a bound. -/
structure Summary where
  events : EventCounts
  txns : Stats
  subLocks : Nat
  allocations : Nat
  dataTypes : Nat
  accesses : Nat
  discardedAccesses : Nat
  /-- The inconsistencies by the names of their kinds. -/
  inconsistencies : AscMap String Nat
deriving DecidableEq, Repr

namespace Summary

/-- The number of inconsistencies of all kinds, as a 64-bit word. -/
def inconsistencyCount (s : Summary) : UInt64 := UInt64.ofNat s.inconsistencies.total

end Summary

end LockTrace
