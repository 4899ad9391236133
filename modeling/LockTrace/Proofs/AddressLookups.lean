import LockTrace.Proofs.AllocationRows
import LockTrace.Proofs.LockLifetimes

/-!
# Which allocation an address lies in

A heap comes about by allocations that begin and end (`Call`). Two of them never begin at one base,
and nothing else is asked of their ranges, so these may overlap. Of the allocations that begin at
or below an address only the nearest one is looked at; what is found contains the address, and an
allocation around the address is overlooked exactly if another one begins between its base and the
address without reaching it (`Nearest`, `containing?_after`). Where no allocation begins inside
another, none is overlooked (`exists_containing?_iff_of_apart`).
-/

namespace LockTrace

namespace Heap

/-! ### The heaps that come about -/

/-- What is asked of a heap. -/
inductive Call where
  | allocate (base size : UInt64) (typeName : String) (time : UInt64)
  | free (base time : UInt64)
deriving DecidableEq, Repr

/-- The heap after a call. -/
def apply (h : Heap) : Call → Heap
  | .allocate base size typeName time => (h.allocate base size typeName time).heap
  | .free base time => (h.free base time).heap

/-- The heap after calls, from the one at the start. -/
def after (tracked : Option (List String)) (calls : List Call) : Heap :=
  calls.foldl apply (initial tracked)

/-- Every active allocation is found by its base. -/
def Based (h : Heap) : Prop := ∀ base a, h.active.get? base = some a → a.base = base

namespace Based

variable {h : Heap}

theorem initial (tracked : Option (List String)) : (Heap.initial tracked).Based := by
  intro base a hget
  cases hget

theorem allocate (hb : h.Based) (base size : UInt64) (typeName : String) (time : UInt64) :
    (h.allocate base size typeName time).heap.Based := by
  by_cases hactive : h.active.contains base = true
  · rw [allocate_of_active hactive]
    exact hb
  · by_cases htracks : h.Tracks typeName
    · rw [heap_allocate_of_accepted hactive htracks]
      intro base' a hget
      rw [AscMap.get?_insert] at hget
      split at hget
      · next heq =>
        cases hget
        exact heq
      · exact hb base' a hget
    · rw [allocate_of_untracked hactive htracks]
      exact hb

theorem free (hb : h.Based) (base time : UInt64) : (h.free base time).heap.Based := by
  cases hget : h.active.get? base with
  | none =>
    rw [free_of_none hget]
    exact hb
  | some freed =>
    rw [free_of_active hget]
    intro base' a ha
    rw [AscMap.get?_erase] at ha
    split at ha
    · cases ha
    · exact hb base' a ha

theorem after (tracked : Option (List String)) (calls : List Call) :
    (Heap.after tracked calls).Based := by
  have hfold : ∀ (cs : List Call) (h : Heap), h.Based → (cs.foldl Heap.apply h).Based := by
    intro cs
    induction cs with
    | nil => exact fun _ hb => hb
    | cons c cs ih =>
      intro h hb
      cases c with
      | allocate base size typeName time => exact ih _ (hb.allocate base size typeName time)
      | free base time => exact ih _ (hb.free base time)
  exact hfold calls _ (.initial tracked)

theorem mem_entries_iff (hb : h.Based) {e : UInt64 × Allocation} :
    e ∈ h.active.entries ↔ e.2 ∈ h.active.values ∧ e.2.base = e.1 := by
  obtain ⟨base, a⟩ := e
  rw [AscMap.mem_entries_iff, AscMap.mem_values_iff]
  constructor
  · intro hget
    exact ⟨⟨base, hget⟩, hb base a hget⟩
  · rintro ⟨⟨base', hget⟩, hbase⟩
    have heq : base' = base := (hb base' a hget).symm.trans hbase
    rwa [heq] at hget

theorem eq_of_base (hb : h.Based) {a b : Allocation} (ha : a ∈ h.active.values)
    (hb' : b ∈ h.active.values) (heq : a.base = b.base) : a = b := by
  have hget : ∀ c ∈ h.active.values, h.active.get? c.base = some c := fun c hc =>
    AscMap.mem_entries_iff.mp ((hb.mem_entries_iff (e := (c.base, c))).mpr ⟨hc, rfl⟩)
  have hgeta := hget a ha
  rw [heq, hget b hb'] at hgeta
  exact (Option.some.inj hgeta).symm

end Based

/-! ### The nearest allocation -/

/-- Of the active allocations that begin at or below an address, the one with the largest base. -/
structure Nearest (h : Heap) (address : UInt64) (a : Allocation) : Prop where
  active : a ∈ h.active.values
  below : a.base ≤ address
  largest : ∀ b ∈ h.active.values, b.base ≤ address → b.base ≤ a.base

namespace Based

variable {h : Heap}

theorem nearest_iff (hb : h.Based) (address : UInt64) (a : Allocation) :
    (h.active.floor? address).map Prod.snd = some a ↔ h.Nearest address a := by
  rw [Option.map_eq_some_iff]
  constructor
  · rintro ⟨e, hfloor, rfl⟩
    obtain ⟨hmem, hle, hmax⟩ := AscMap.floor?_eq_some_iff.mp hfloor
    obtain ⟨hactive, hbase⟩ := hb.mem_entries_iff.mp hmem
    refine ⟨hactive, hbase ▸ hle, fun b hactive' hle' => ?_⟩
    rw [hbase]
    exact hmax (b.base, b) (hb.mem_entries_iff.mpr ⟨hactive', rfl⟩) hle'
  · intro hnear
    refine ⟨(a.base, a), AscMap.floor?_eq_some_iff.mpr ⟨?_, hnear.below, ?_⟩, rfl⟩
    · exact hb.mem_entries_iff.mpr ⟨hnear.active, rfl⟩
    · intro d hd hle
      obtain ⟨hactive, hbase⟩ := hb.mem_entries_iff.mp hd
      rw [← hbase] at hle ⊢
      exact hnear.largest d.2 hactive hle

theorem exists_nearest (hb : h.Based) {address : UInt64} {a : Allocation}
    (ha : a ∈ h.active.values) (hle : a.base ≤ address) : ∃ b, h.Nearest address b := by
  cases hfloor : h.active.floor? address with
  | none =>
    have habove := AscMap.floor?_eq_none_iff.mp hfloor (a.base, a)
      (hb.mem_entries_iff.mpr ⟨ha, rfl⟩)
    exact absurd hle habove
  | some e => exact ⟨e.2, (hb.nearest_iff address e.2).mp (by rw [hfloor]; rfl)⟩

theorem containing?_eq_some_iff (hb : h.Based) {address : UInt64} {a : Allocation} :
    h.containing? address = some a ↔ h.Nearest address a ∧ a.Contains address := by
  unfold containing?
  rw [Option.filter_eq_some_iff, hb.nearest_iff, decide_eq_true_eq]

/-- Nothing is found exactly if every allocation around the address is overlooked. -/
theorem containing?_eq_none_iff (hb : h.Based) {address : UInt64} :
    h.containing? address = none ↔
      ∀ a ∈ h.active.values, a.Contains address →
        ∃ b ∈ h.active.values, a.base < b.base ∧ b.base ≤ address ∧ ¬ b.Contains address := by
  constructor
  · intro hnone a ha hcontains
    obtain ⟨b, hnear⟩ := hb.exists_nearest ha hcontains.1
    have hmiss : ¬ b.Contains address := by
      intro hcontains'
      rw [hb.containing?_eq_some_iff.mpr ⟨hnear, hcontains'⟩] at hnone
      cases hnone
    have hbases : a.base ≠ b.base := by
      intro heq
      rw [hb.eq_of_base ha hnear.active heq] at hcontains
      exact hmiss hcontains
    have hlt : a.base < b.base := UInt64.lt_of_le_of_ne (hnear.largest a ha hcontains.1) hbases
    exact ⟨b, hnear.active, hlt, hnear.below, hmiss⟩
  · intro hall
    cases hfound : h.containing? address with
    | none => rfl
    | some a =>
      obtain ⟨hnear, hcontains⟩ := hb.containing?_eq_some_iff.mp hfound
      obtain ⟨b, hactive, hlt, hle, _⟩ := hall a hnear.active hcontains
      exact absurd hlt (UInt64.not_lt.mpr (hnear.largest b hactive hle))

/-- Where no allocation begins inside another, every allocation around an address is found. -/
theorem exists_containing?_iff_of_apart (hb : h.Based)
    (hapart : ∀ a ∈ h.active.values, ∀ b ∈ h.active.values, a.Contains b.base → b = a)
    (address : UInt64) :
    (∃ a, h.containing? address = some a) ↔ ∃ a ∈ h.active.values, a.Contains address := by
  constructor
  · rintro ⟨a, hfound⟩
    obtain ⟨hnear, hcontains⟩ := hb.containing?_eq_some_iff.mp hfound
    exact ⟨a, hnear.active, hcontains⟩
  · rintro ⟨a, ha, hcontains⟩
    obtain ⟨b, hnear⟩ := hb.exists_nearest ha hcontains.1
    have hbase : a.Contains b.base := by
      have hle := UInt64.le_iff_toNat_le.mp (hnear.largest a ha hcontains.1)
      have hbelow := UInt64.le_iff_toNat_le.mp hnear.below
      obtain ⟨_, hend⟩ := Allocation.contains_iff.mp hcontains
      exact Allocation.contains_iff.mpr ⟨hle, Nat.lt_of_le_of_lt hbelow hend⟩
    have heq : b = a := hapart a ha b hnear.active hbase
    exact ⟨a, hb.containing?_eq_some_iff.mpr ⟨heq ▸ hnear, hcontains⟩⟩

end Based

/-- Whatever began and ended, the allocation that is found is the nearest active one that begins
    at or below the address, if this contains the address. So nothing is found exactly if every
    active allocation around the address is overlooked for another one, which begins nearer to the
    address and does not reach it. -/
theorem containing?_after (tracked : Option (List String)) (calls : List Call)
    (address : UInt64) :
    (∀ a, (after tracked calls).containing? address = some a ↔
      (after tracked calls).Nearest address a ∧ a.Contains address) ∧
    ((after tracked calls).containing? address = none ↔
      ∀ a ∈ (after tracked calls).active.values, a.Contains address →
        ∃ b ∈ (after tracked calls).active.values,
          a.base < b.base ∧ b.base ≤ address ∧ ¬ b.Contains address) := by
  have hb := Based.after tracked calls
  exact ⟨fun _ => hb.containing?_eq_some_iff, hb.containing?_eq_none_iff⟩

/-- An allocation of 4096 addresses, and a small one inside it. -/
def nestedAllocations : List Call :=
  [.allocate 0x1000 0x1000 "inode" 1, .allocate 0x1100 0x10 "inode" 2]

/-- Behind the small allocation, the large one around it is not found. -/
theorem not_forall_exists_containing?_iff :
    ¬ ∀ (tracked : Option (List String)) (calls : List Call) (address : UInt64),
      (∃ a, (after tracked calls).containing? address = some a) ↔
        ∃ a ∈ (after tracked calls).active.values, a.Contains address := by
  intro hall
  have hnone : (after none nestedAllocations).containing? 0x1200 = none := by decide
  obtain ⟨a, hfound⟩ := (hall none nestedAllocations 0x1200).mpr
    ⟨⟨1, 1, 0x1000, 0x1000, 1⟩, by decide, by decide⟩
  rw [hnone] at hfound
  cases hfound

end Heap

end LockTrace
