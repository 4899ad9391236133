/-!
# Handing out numbers

Rows of the output tables are numbered from 1. A `Counter` hands out numbers one by one;
an `Interner` numbers names in the order in which they are first seen, so that one name
keeps one number.
-/

namespace LockTrace

/-! ### Counters -/

/-- A source of consecutive numbers. `next` is the one handed out next. The numbers do not run
    out: those kept in 64 bits are the same until `2 ^ 64` of them have been handed out. -/
structure Counter where
  next : Nat
deriving DecidableEq, Repr

namespace Counter

/-- The counter whose first number is 1. -/
def fromOne : Counter := ⟨1⟩

instance : Inhabited Counter := ⟨fromOne⟩

/-- The counter after its next number has been handed out. -/
def advance (c : Counter) : Counter := ⟨c.next + 1⟩

/-- How many numbers a counter that started at 1 has handed out. -/
def issued (c : Counter) : Nat := c.next - 1

end Counter

/-! ### Numbered names -/

/-- Distinct names in the order of their numbers: the first name has number 1. -/
structure Interner where
  names : List String
  distinct : names.Nodup

namespace Interner

instance : EmptyCollection Interner := ⟨[], List.nodup_nil⟩

instance : Inhabited Interner := ⟨∅⟩

instance : DecidableEq Interner := fun a b =>
  if h : a.names = b.names then
    isTrue (by cases a; cases b; cases h; rfl)
  else
    isFalse (fun e => h (congrArg Interner.names e))

/-- The number of `name`, if it has one. -/
def number? (s : Interner) (name : String) : Option Nat :=
  if name ∈ s.names then some (s.names.idxOf name + 1) else none

/-- The names with `name` among them: a new name comes last. -/
def insert (s : Interner) (name : String) : Interner :=
  if h : name ∈ s.names then s
  else ⟨s.names ++ [name], by
    refine List.nodup_append.mpr ⟨s.distinct, by simp, ?_⟩
    intro a ha b hb
    rw [List.mem_singleton.mp hb]
    exact fun e => h (e ▸ ha)⟩

/-- The number that `name` has once it is among the names. -/
def numberOf (s : Interner) (name : String) : Nat :=
  s.names.idxOf name + 1

def size (s : Interner) : Nat := s.names.length

def isEmpty (s : Interner) : Bool := s.names.isEmpty

theorem insert_of_mem {s : Interner} {name : String} (h : name ∈ s.names) :
    s.insert name = s := by
  simp [insert, h]

theorem names_insert_of_not_mem {s : Interner} {name : String} (h : name ∉ s.names) :
    (s.insert name).names = s.names ++ [name] := by
  simp [insert, h]

/-- A new name gets the next free number. -/
theorem numberOf_of_not_mem {s : Interner} {name : String} (h : name ∉ s.names) :
    s.numberOf name = s.size + 1 := by
  simp [numberOf, size, List.idxOf_eq_length h]

/-- The number of a name does not depend on whether the name was entered before or just now. -/
theorem numberOf_insert (s : Interner) (name : String) :
    (s.insert name).numberOf name = s.numberOf name := by
  by_cases h : name ∈ s.names
  · rw [insert_of_mem h]
  · rw [numberOf, names_insert_of_not_mem h, List.idxOf_append, if_neg h, numberOf,
      List.idxOf_eq_length h, List.idxOf_cons_self, Nat.zero_add]

end Interner

end LockTrace
