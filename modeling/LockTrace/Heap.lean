import LockTrace.Journal

/-!
# The heap

The heap knows the active allocations of the traced kernel by their base addresses, and
numbers the data types that occur in them. Allocations of data types that are not tracked
are turned down. What there is to write or to report comes back as outputs.
-/

namespace LockTrace

/-- An active allocation. -/
structure Allocation where
  id : Nat
  typeId : Nat
  base : UInt64
  size : UInt64
  start : UInt64
deriving DecidableEq, Repr

namespace Allocation

/-- Whether an address is one of the `size` addresses from `base`. -/
def Contains (a : Allocation) (address : UInt64) : Prop :=
  a.base ≤ address ∧ address - a.base < a.size

instance (a : Allocation) (address : UInt64) : Decidable (a.Contains address) :=
  inferInstanceAs (Decidable (_ ∧ _))

/-- The row of an allocation that ends at `stop`. -/
def row (a : Allocation) (stop : Option UInt64) : AllocationRow :=
  ⟨a.id, a.typeId, a.base, a.size, a.start, stop⟩

end Allocation

/-- The active allocations by base address. -/
structure Heap where
  active : AscMap UInt64 Allocation
  ids : Counter
  types : Interner
  /-- The data types to track; all of them if none is named. -/
  tracked : Option (List String)
deriving DecidableEq

namespace Heap

/-- The heap at the start of a trace. -/
def initial (tracked : Option (List String)) : Heap := ⟨∅, .fromOne, ∅, tracked⟩

instance : Inhabited Heap := ⟨initial none⟩

/-- Whether the allocations of a data type are tracked. -/
def Tracks (h : Heap) (typeName : String) : Prop :=
  ∀ names, h.tracked = some names → typeName ∈ names

instance (h : Heap) (typeName : String) : Decidable (h.Tracks typeName) :=
  match hn : h.tracked with
  | none => isTrue (fun names e => by simp [hn] at e)
  | some names =>
    if hm : typeName ∈ names then
      isTrue (fun names' e => by
        have : names = names' := by simpa [hn] using e
        exact this ▸ hm)
    else isFalse (fun all => hm (all names hn))

/-- The active allocation around an address: of the bases at or below the address, only the
    nearest one counts. -/
def containing? (h : Heap) (address : UInt64) : Option Allocation :=
  ((h.active.floor? address).map Prod.snd).filter (fun a => decide (a.Contains address))

/-- How many allocations were accepted so far. -/
def total (h : Heap) : Nat := h.ids.issued

/-- How many data types occurred so far. -/
def typeCount (h : Heap) : Nat := h.types.size

/-- What a change of the heap gives: the heap, an answer, and the outputs. -/
structure Change (α : Type) where
  heap : Heap
  answer : α
  outputs : List Output

/-- Register the allocation of `size` addresses from `base`. The answer is its number, or
    nothing if it is turned down. A data type that is new gets a row. -/
def allocate (h : Heap) (base size : UInt64) (typeName : String) (time : UInt64) :
    Change (Option Nat) :=
  if h.active.contains base then ⟨h, none, [.report (.duplicateAllocation base time)]⟩
  else if h.Tracks typeName then
    let types := h.types.insert typeName
    let typeId := types.numberOf typeName
    let id := h.ids.next
    { heap := { h with
        active := h.active.insert base ⟨id, typeId, base, size, time⟩
        ids := h.ids.advance
        types := types }
      answer := some id
      outputs :=
        if typeName ∈ h.types.names then [] else [.record (.dataType ⟨typeId, typeName⟩)] }
  else ⟨h, none, [.report (.unknownDataType typeName time)]⟩

/-- End the allocation that starts at `base`. The answer is the allocation. -/
def free (h : Heap) (base time : UInt64) : Change (Option Allocation) :=
  match h.active.get? base with
  | none => ⟨h, none, [.report (.unknownFree base time)]⟩
  | some a =>
    ⟨{ h with active := h.active.erase base }, some a, [.record (.allocation (a.row (some time)))]⟩

/-- Write every allocation that is still active, in the order of the bases. -/
def finish (h : Heap) : Change Unit where
  heap := { h with active := ∅ }
  answer := ()
  outputs := h.active.values.map fun a => .record (.allocation (a.row none))

end Heap

end LockTrace
