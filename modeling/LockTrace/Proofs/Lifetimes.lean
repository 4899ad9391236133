import LockTrace.Heap
import LockTrace.Event
import Mathlib.Data.List.Induction

/-!
# Lifetimes of allocations

Which allocations a trace has can be told from its events alone. An event that allocates is
accepted if its data type is tracked and no accepted allocation at its address is still without
a free (`Event.Accepts`). Every accepted allocation lasts from there to the first free of its
address that comes after it, and is numbered in the order of acceptance (`allocationRows`).

One more event closes what it frees and adds what it allocates (`allocationRows_concat`). This is
how a trace is followed.
-/

namespace LockTrace

/-- Whether the allocations of a data type are tracked; all of them are if none is named. -/
def IsTracked (tracked : Option (List String)) (typeName : String) : Prop :=
  ∀ names, tracked = some names → typeName ∈ names

instance (tracked : Option (List String)) (typeName : String) :
    Decidable (IsTracked tracked typeName) :=
  inferInstanceAs (Decidable ((Heap.initial tracked).Tracks typeName))

/-! ### Accepted and open allocations -/

namespace Event

/-- How many addresses an event allocates, if it allocates. -/
def allocated? (e : Event) : Option UInt64 :=
  match e.operation with
  | .alloc size => some size
  | _ => none

def FreesAt (e : Event) (base : UInt64) : Prop := e.operation = .free ∧ e.address = base

instance (e : Event) (base : UInt64) : Decidable (e.FreesAt base) :=
  inferInstanceAs (Decidable (_ ∧ _))

/-- After the events `before`, the event begins an allocation: its data type is tracked, and
    every allocation that began at its address was freed since. -/
def Accepts (tracked : Option (List String)) (before : List Event) (e : Event) : Prop :=
  e.allocated?.isSome ∧ IsTracked tracked e.typeName ∧
    ∀ earlier a later, (h : before = earlier ++ a :: later) → Accepts tracked earlier a →
      a.address = e.address → ∃ f ∈ later, f.FreesAt e.address
termination_by before.length
decreasing_by
  rw [h, List.length_append, List.length_cons]
  omega

end Event

/-- After the events `before`, an allocation that began at a base is not yet freed. -/
def OpenAt (tracked : Option (List String)) (before : List Event) (base : UInt64) : Prop :=
  ∃ earlier a later, before = earlier ++ a :: later ∧ Event.Accepts tracked earlier a ∧
    a.address = base ∧ ∀ f ∈ later, ¬ f.FreesAt base

variable {tracked : Option (List String)} {before es : List Event} {e : Event} {base : UInt64}

theorem Event.accepts_iff :
    e.Accepts tracked before ↔ e.allocated?.isSome ∧ IsTracked tracked e.typeName ∧
      ¬ OpenAt tracked before e.address := by
  rw [Accepts]
  simp [OpenAt]

/-- The last one of some events is cut off, or some before it. -/
theorem concat_eq_append_cons_iff {earlier later : List Event} {a : Event} :
    es ++ [e] = earlier ++ a :: later ↔
      (es = earlier ∧ e = a ∧ later = []) ∨
        ∃ later', later = later' ++ [e] ∧ es = earlier ++ a :: later' := by
  rcases later.eq_nil_or_concat with rfl | ⟨later', e', rfl⟩
  · rw [List.append_singleton_inj]
    simp
  · rw [List.concat_eq_append, ← List.cons_append, ← List.append_assoc, List.append_singleton_inj]
    simp [List.append_singleton_inj]
    grind

theorem not_openAt_nil (base : UInt64) : ¬ OpenAt tracked [] base := by
  rintro ⟨earlier, a, later, h, _⟩
  simp at h

/-- One more event opens what it allocates and closes what it frees. -/
theorem openAt_concat :
    OpenAt tracked (es ++ [e]) base ↔
      (e.Accepts tracked es ∧ e.address = base) ∨ (OpenAt tracked es base ∧ ¬ e.FreesAt base) := by
  unfold OpenAt
  constructor
  · rintro ⟨earlier, a, later, hsplit, ha, hbase, hlater⟩
    rcases concat_eq_append_cons_iff.mp hsplit with ⟨rfl, rfl, _⟩ | ⟨later', rfl, rfl⟩
    · exact Or.inl ⟨ha, hbase⟩
    · obtain ⟨hlater', he⟩ := List.forall_mem_append.mp hlater
      exact Or.inr ⟨⟨earlier, a, later', rfl, ha, hbase, hlater'⟩, he e List.mem_cons_self⟩
  · rintro (⟨ha, hbase⟩ | ⟨⟨earlier, a, later, rfl, ha, hbase, hlater⟩, he⟩)
    · exact ⟨es, e, [], rfl, ha, hbase, fun _ hf => by cases hf⟩
    · exact ⟨earlier, a, later ++ [e], by simp, ha, hbase,
        List.forall_mem_append.mpr ⟨hlater, List.forall_mem_singleton.mpr he⟩⟩

/-! ### Deciding what is open -/

/-- The bases of open allocations after one more event. -/
def occupy (tracked : Option (List String)) (bases : List UInt64) (e : Event) : List UInt64 :=
  match e.operation with
  | .alloc _ =>
    if IsTracked tracked e.typeName ∧ e.address ∉ bases then e.address :: bases else bases
  | .free => bases.filter (fun base => decide (e.address ≠ base))
  | _ => bases

/-- The bases of the allocations that are open after some events. -/
def openBases (tracked : Option (List String)) (es : List Event) : List UInt64 :=
  es.foldl (occupy tracked) []

theorem mem_openBases : base ∈ openBases tracked es ↔ OpenAt tracked es base := by
  induction es using List.reverseRecOn generalizing base with
  | nil => exact iff_of_false List.not_mem_nil (not_openAt_nil base)
  | append_singleton es e ih =>
    rw [openBases, List.foldl_append, List.foldl_cons, List.foldl_nil, openAt_concat,
      Event.accepts_iff, ← ih, ← ih]
    change base ∈ occupy tracked (openBases tracked es) e ↔ _
    unfold occupy Event.allocated? Event.FreesAt
    cases e.operation <;> grind

instance : Decidable (OpenAt tracked es base) := decidable_of_iff _ mem_openBases

instance : Decidable (e.Accepts tracked before) := decidable_of_iff _ Event.accepts_iff.symm

/-! ### Lifetimes -/

/-- An allocation from its beginning to its end, if it ends. -/
structure Lifetime where
  base : UInt64
  size : UInt64
  typeName : String
  start : UInt64
  stop : Option UInt64
deriving DecidableEq, Repr

/-- One more event ends the lifetime if it frees its base and nothing did before. -/
def Lifetime.meet (l : Lifetime) (e : Event) : Lifetime :=
  { l with stop := l.stop.or (if e.FreesAt l.base then some e.time else none) }

/-- The lifetime that begins with an event between those before and those after it. -/
def Event.lifetime? (tracked : Option (List String)) (before : List Event) (e : Event)
    (after : List Event) : Option Lifetime :=
  if e.Accepts tracked before then
    e.allocated?.map fun size =>
      ⟨e.address, size, e.typeName, e.time,
        (after.find? fun f => decide (f.FreesAt e.address)).map Event.time⟩
  else none

/-- The lifetimes that begin with some events, in the order in which they begin. -/
def lifetimesFrom (tracked : Option (List String)) (before : List Event) :
    List Event → List Lifetime
  | [] => []
  | e :: es => (e.lifetime? tracked before es).toList ++ lifetimesFrom tracked (before ++ [e]) es

/-- The lifetimes of all allocations of a trace. -/
def lifetimes (tracked : Option (List String)) (es : List Event) : List Lifetime :=
  lifetimesFrom tracked [] es

theorem Event.lifetime?_concat (tracked : Option (List String)) (before : List Event) (e : Event)
    (after : List Event) (f : Event) :
    e.lifetime? tracked before (after ++ [f]) =
      (e.lifetime? tracked before after).map (Lifetime.meet · f) := by
  unfold lifetime?
  split
  · rw [Option.map_map]
    congr 1
    funext size
    have hlast : ([f].find? fun f => decide (f.FreesAt e.address)).map Event.time =
        if f.FreesAt e.address then some f.time else none := by
      by_cases hfrees : f.FreesAt e.address <;> simp [hfrees]
    simp only [Function.comp_apply, Lifetime.meet, List.find?_append, Option.map_or, hlast]
  · rfl

theorem lifetimesFrom_concat (tracked : Option (List String)) (before es : List Event) (e : Event) :
    lifetimesFrom tracked before (es ++ [e]) =
      (lifetimesFrom tracked before es).map (Lifetime.meet · e) ++
        (e.lifetime? tracked (before ++ es) []).toList := by
  induction es generalizing before with
  | nil => simp [lifetimesFrom]
  | cons e' es ih =>
    rw [List.cons_append, lifetimesFrom, lifetimesFrom, Event.lifetime?_concat, ih]
    simp [Option.toList_map, List.map_append]

/-- One more event meets all lifetimes and may begin one. -/
theorem lifetimes_concat (tracked : Option (List String)) (es : List Event) (e : Event) :
    lifetimes tracked (es ++ [e]) =
      (lifetimes tracked es).map (Lifetime.meet · e) ++ (e.lifetime? tracked es []).toList :=
  lifetimesFrom_concat tracked [] es e

theorem Event.Accepts.exists_alloc (h : e.Accepts tracked before) :
    ∃ size, e.operation = .alloc size := by
  obtain ⟨size, hsize⟩ := Option.isSome_iff_exists.mp (accepts_iff.mp h).1
  unfold allocated? at hsize
  split at hsize
  · next heq => exact ⟨_, heq⟩
  · cases hsize

theorem Event.lifetime?_of_accepts (h : e.Accepts tracked before) {size : UInt64}
    (halloc : e.operation = .alloc size) :
    e.lifetime? tracked before [] = some ⟨e.address, size, e.typeName, e.time, none⟩ := by
  simp [lifetime?, h, allocated?, halloc]

theorem Event.lifetime?_of_not_accepts (h : ¬ e.Accepts tracked before) :
    e.lifetime? tracked before [] = none := if_neg h

/-- An allocation is open exactly if its lifetime has no end. -/
theorem openAt_iff :
    OpenAt tracked es base ↔ ∃ l ∈ lifetimes tracked es, l.base = base ∧ l.stop = none := by
  induction es using List.reverseRecOn with
  | nil => exact iff_of_false (not_openAt_nil base) (by simp [lifetimes, lifetimesFrom])
  | append_singleton es e ih =>
    have hmeet : ∀ l : Lifetime, (l.meet e).base = base ∧ (l.meet e).stop = none ↔
        (l.base = base ∧ l.stop = none) ∧ ¬ e.FreesAt base := by
      intro l
      unfold Lifetime.meet
      grind
    have hnew : (∃ l ∈ e.lifetime? tracked es [], l.base = base ∧ l.stop = none) ↔
        e.Accepts tracked es ∧ e.address = base := by
      by_cases haccepts : e.Accepts tracked es
      · obtain ⟨size, halloc⟩ := haccepts.exists_alloc
        simp [Event.lifetime?_of_accepts haccepts halloc, haccepts]
      · simp [Event.lifetime?_of_not_accepts haccepts, haccepts]
    rw [openAt_concat, ih, lifetimes_concat, ← hnew, or_comm]
    simp only [List.mem_append, List.mem_map, Option.mem_toList, or_and_right, exists_or,
      exists_exists_and_eq_and, hmeet, Option.mem_def]
    simp only [← and_assoc, exists_and_right]

/-- An event that frees nothing that is open changes no lifetime. -/
theorem map_meet_eq_self (h : ∀ base, OpenAt tracked es base → ¬ e.FreesAt base) :
    (lifetimes tracked es).map (Lifetime.meet · e) = lifetimes tracked es := by
  refine (List.map_congr_left fun l hl => ?_).trans (List.map_id _)
  rcases l with ⟨base, size, typeName, start, _ | time⟩
  · have hfrees := h base (openAt_iff.mpr ⟨_, hl, rfl, rfl⟩)
    simp [Lifetime.meet, hfrees]
  · rfl

/-! ### Rows -/

theorem eraseDups_concat (names : List String) (name : String) :
    (names ++ [name]).eraseDups =
      if name ∈ names.eraseDups then names.eraseDups else names.eraseDups ++ [name] := by
  rw [List.eraseDups_append]
  by_cases h : name ∈ names <;> simp [List.removeAll, List.eraseDups_cons, h]

/-- The data types of the allocations of a trace, in the order in which they appear first. -/
def typeNames (tracked : Option (List String)) (es : List Event) : List String :=
  ((lifetimes tracked es).map Lifetime.typeName).eraseDups

/-- The row of a lifetime. The type is numbered by its rank among some names. -/
def Lifetime.row (names : List String) (l : Lifetime) (id : Nat) : AllocationRow :=
  ⟨id, names.idxOf l.typeName + 1, l.base, l.size, l.start, l.stop⟩

/-- The rows of all allocations of a trace, numbered in the order of acceptance. -/
def allocationRows (tracked : Option (List String)) (es : List Event) : List AllocationRow :=
  ((lifetimes tracked es).zipIdx 1).map fun (l, id) => l.row (typeNames tracked es) id

/-- One more event ends what the row is about if it frees its base and nothing did before. -/
def AllocationRow.meet (r : AllocationRow) (e : Event) : AllocationRow :=
  { r with stop := r.stop.or (if e.FreesAt r.base then some e.time else none) }

theorem AllocationRow.meet_of_stop {r : AllocationRow} (h : r.stop ≠ none) (e : Event) :
    r.meet e = r := by
  rcases r with ⟨id, typeId, base, size, start, _ | stop⟩
  · exact absurd rfl h
  · rfl

theorem Allocation.meet_row (a : Allocation) (e : Event) :
    (a.row none).meet e = a.row (if e.FreesAt a.base then some e.time else none) := rfl

theorem mem_typeNames {l : Lifetime} (h : l ∈ lifetimes tracked es) :
    l.typeName ∈ typeNames tracked es :=
  List.mem_eraseDups.mpr (List.mem_map_of_mem h)

theorem row_of_names {names names' : List String} {l : Lifetime} (h : l.typeName ∈ names)
    (id : Nat) : l.row (names ++ names') id = l.row names id := by
  unfold Lifetime.row
  rw [List.idxOf_append, if_pos h]

section Concat

variable {size : UInt64}

/-- An accepted allocation adds its lifetime to the others. -/
theorem lifetimes_of_accepts (h : e.Accepts tracked es) (halloc : e.operation = .alloc size) :
    lifetimes tracked (es ++ [e]) =
      lifetimes tracked es ++ [⟨e.address, size, e.typeName, e.time, none⟩] := by
  have hnot : ∀ base, OpenAt tracked es base → ¬ e.FreesAt base := by
    rintro base _ ⟨hfree, _⟩
    cases halloc.symm.trans hfree
  rw [lifetimes_concat, map_meet_eq_self hnot, Event.lifetime?_of_accepts h halloc,
    Option.toList_some]

theorem lifetimes_of_not_accepts (h : ¬ e.Accepts tracked es) :
    lifetimes tracked (es ++ [e]) = (lifetimes tracked es).map (Lifetime.meet · e) := by
  rw [lifetimes_concat, Event.lifetime?_of_not_accepts h, Option.toList_none, List.append_nil]

theorem typeNames_of_accepts (h : e.Accepts tracked es) :
    typeNames tracked (es ++ [e]) =
      if e.typeName ∈ typeNames tracked es then typeNames tracked es
      else typeNames tracked es ++ [e.typeName] := by
  obtain ⟨size, halloc⟩ := h.exists_alloc
  rw [typeNames, lifetimes_of_accepts h halloc, List.map_append]
  exact eraseDups_concat _ e.typeName

theorem typeNames_of_not_accepts (h : ¬ e.Accepts tracked es) :
    typeNames tracked (es ++ [e]) = typeNames tracked es := by
  rw [typeNames, lifetimes_of_not_accepts h, List.map_map]
  rfl

/-- An accepted allocation adds a row with the next number. -/
theorem allocationRows_of_accepts (h : e.Accepts tracked es) (halloc : e.operation = .alloc size) :
    allocationRows tracked (es ++ [e]) = allocationRows tracked es ++
      [⟨(lifetimes tracked es).length + 1, (typeNames tracked (es ++ [e])).idxOf e.typeName + 1,
        e.address, size, e.time, none⟩] := by
  have hold : ∀ p ∈ (lifetimes tracked es).zipIdx 1,
      p.1.row (typeNames tracked (es ++ [e])) p.2 = p.1.row (typeNames tracked es) p.2 := by
    intro p hp
    have hname : p.1.typeName ∈ typeNames tracked es :=
      mem_typeNames (List.fst_mem_of_mem_zipIdx hp)
    rw [typeNames_of_accepts h]
    split
    · rfl
    · exact row_of_names hname p.2
  unfold allocationRows
  rw [lifetimes_of_accepts h halloc, List.zipIdx_append, List.map_append,
    List.map_congr_left hold, Nat.add_comm 1]
  rfl

/-- Every other event only ends rows. -/
theorem allocationRows_of_not_accepts (h : ¬ e.Accepts tracked es) :
    allocationRows tracked (es ++ [e]) =
      (allocationRows tracked es).map (AllocationRow.meet · e) := by
  unfold allocationRows
  rw [lifetimes_of_not_accepts h, typeNames_of_not_accepts h, List.zipIdx_map, List.map_map,
    List.map_map]
  rfl

end Concat

end LockTrace
