/-!
# Maps with ascending keys

A finite map kept as a list of entries whose keys ascend strictly. The order of the
entries is part of the value, so two maps with the same look-ups are equal, and walking
over a map visits its keys from the smallest to the largest.

Addresses, context numbers, lock keys and the names of inconsistencies are the keys used
in this library. What a look-up finds after an insertion, a removal or a change is settled
by `get?_insert`, `get?_erase` and `get?_modify`; after these no proof has to open the
list of entries.
-/

namespace LockTrace

/-! ### Lists of entries -/

section Entries

variable {κ ν : Type}

/-- The keys of a list of entries ascend strictly. -/
def Ascending [LT κ] (es : List (κ × ν)) : Prop :=
  es.Pairwise (fun a b => a.1 < b.1)

/-- The value of the first entry with key `k`. -/
def lookupEntry [DecidableEq κ] (k : κ) : List (κ × ν) → Option ν
  | [] => none
  | e :: es => if e.1 = k then some e.2 else lookupEntry k es

/-- Put `v` at key `k`: replace the entry of `k`, or insert one before the first larger
    key. -/
def insertEntry [LT κ] [DecidableLT κ] [DecidableEq κ] (k : κ) (v : ν) :
    List (κ × ν) → List (κ × ν)
  | [] => [(k, v)]
  | e :: es =>
    if k < e.1 then (k, v) :: e :: es
    else if k = e.1 then (k, v) :: es
    else e :: insertEntry k v es

theorem mem_insertEntry [LT κ] [DecidableLT κ] [DecidableEq κ] {k : κ} {v : ν}
    {es : List (κ × ν)} {e : κ × ν} (h : e ∈ insertEntry k v es) : e = (k, v) ∨ e ∈ es := by
  induction es with
  | nil => simpa [insertEntry] using h
  | cons d ds ih =>
    simp only [insertEntry] at h
    split at h
    · simpa using h
    · split at h
      · rcases List.mem_cons.mp h with h | h
        · exact Or.inl h
        · exact Or.inr (List.mem_cons_of_mem _ h)
      · rcases List.mem_cons.mp h with h | h
        · exact Or.inr (h ▸ List.mem_cons_self)
        · exact (ih h).imp id (List.mem_cons_of_mem _)

/-- Of two keys that differ, one is below the other. -/
theorem lt_of_not_lt_of_ne [LT κ] [LE κ] [Std.LawfulOrderLT κ] [Std.IsLinearOrder κ] {a b : κ}
    (h : ¬ a < b) (hne : a ≠ b) : b < a := by
  grind

theorem ascending_insertEntry [LT κ] [LE κ] [Std.LawfulOrderLT κ] [Std.IsLinearOrder κ]
    [DecidableLT κ] [DecidableEq κ] {k : κ} {v : ν} {es : List (κ × ν)} (h : Ascending es) :
    Ascending (insertEntry k v es) := by
  induction es with
  | nil => simp [insertEntry, Ascending]
  | cons d ds ih =>
    obtain ⟨hd, hds⟩ := List.pairwise_cons.mp h
    simp only [insertEntry]
    split
    · next hlt =>
      refine List.pairwise_cons.mpr ⟨fun e he => ?_, h⟩
      rcases List.mem_cons.mp he with rfl | he
      · exact hlt
      · exact Std.lt_trans hlt (hd e he)
    · next hlt =>
      split
      · next heq =>
        subst heq
        exact List.pairwise_cons.mpr ⟨hd, hds⟩
      · next hne =>
        refine List.pairwise_cons.mpr ⟨fun e he => ?_, ih hds⟩
        rcases mem_insertEntry he with rfl | he
        · exact lt_of_not_lt_of_ne hlt hne
        · exact hd e he

theorem lookupEntry_insertEntry [LT κ] [DecidableLT κ] [DecidableEq κ] (k k' : κ) (v : ν)
    (es : List (κ × ν)) :
    lookupEntry k' (insertEntry k v es) = if k = k' then some v else lookupEntry k' es := by
  induction es with
  | nil => simp [insertEntry, lookupEntry]
  | cons e es ih =>
    simp only [insertEntry]
    split
    · simp [lookupEntry]
    · split
      · next heq => simp only [lookupEntry, ← heq]; split <;> rfl
      · next hne => simp only [lookupEntry, ih]; grind

theorem lookupEntry_filter_ne [DecidableEq κ] (k k' : κ) (es : List (κ × ν)) :
    lookupEntry k' (es.filter (fun e => decide (e.1 ≠ k))) =
      if k = k' then none else lookupEntry k' es := by
  induction es with
  | nil => simp [lookupEntry]
  | cons e es ih =>
    simp only [List.filter_cons]
    split
    · next h => simp only [lookupEntry, ih]; grind
    · next h => simp only [lookupEntry, ih]; grind

theorem lookupEntry_map [DecidableEq κ] (k k' : κ) (f : ν → ν) (es : List (κ × ν)) :
    lookupEntry k' (es.map (fun e => if e.1 = k then (e.1, f e.2) else e)) =
      if k = k' then (lookupEntry k' es).map f else lookupEntry k' es := by
  induction es with
  | nil => simp [lookupEntry]
  | cons e es ih =>
    simp only [List.map_cons, lookupEntry, ih]
    grind

end Entries

/-- A finite map, given by its entries in ascending order of the keys. -/
structure AscMap (κ ν : Type) [LT κ] where
  entries : List (κ × ν)
  ascending : Ascending entries

instance {κ ν : Type} [LT κ] [DecidableEq κ] [DecidableEq ν] : DecidableEq (AscMap κ ν) :=
  fun a b =>
    if h : a.entries = b.entries then
      isTrue (by cases a; cases b; cases h; rfl)
    else
      isFalse (fun e => h (congrArg AscMap.entries e))

instance {κ ν : Type} [LT κ] [Repr κ] [Repr ν] : Repr (AscMap κ ν) :=
  ⟨fun m p => reprPrec m.entries p⟩

instance {κ ν : Type} [LT κ] : EmptyCollection (AscMap κ ν) := ⟨[], List.Pairwise.nil⟩

instance {κ ν : Type} [LT κ] : Inhabited (AscMap κ ν) := ⟨∅⟩

namespace AscMap

variable {κ ν : Type} [LT κ]

/-! ### Views and look-up -/

/-- The value at key `k`. -/
def get? [DecidableEq κ] (m : AscMap κ ν) (k : κ) : Option ν :=
  lookupEntry k m.entries

def contains [DecidableEq κ] (m : AscMap κ ν) (k : κ) : Bool := (m.get? k).isSome

def size (m : AscMap κ ν) : Nat := m.entries.length

def isEmpty (m : AscMap κ ν) : Bool := m.entries.isEmpty

/-- The keys, ascending. -/
def keys (m : AscMap κ ν) : List κ := m.entries.map Prod.fst

/-- The values in the order of their keys. -/
def values (m : AscMap κ ν) : List ν := m.entries.map Prod.snd

/-- The sum of the values. -/
def total (m : AscMap κ Nat) : Nat := m.values.foldr (· + ·) 0

/-- The entry with the largest key that is not above `k`. -/
def floor? [DecidableLT κ] (m : AscMap κ ν) (k : κ) : Option (κ × ν) :=
  (m.entries.takeWhile (fun e => decide (¬ k < e.1))).getLast?

/-- The entries whose keys lie in the half-open interval from `lo` to `hi`. -/
def between [DecidableLT κ] (m : AscMap κ ν) (lo hi : κ) : List (κ × ν) :=
  m.entries.filter (fun e => decide (¬ e.1 < lo ∧ e.1 < hi))

/-! ### Changes -/

/-- Put `v` at key `k`. -/
def insert [LE κ] [Std.LawfulOrderLT κ] [Std.IsLinearOrder κ] [DecidableLT κ] [DecidableEq κ]
    (m : AscMap κ ν) (k : κ) (v : ν) : AscMap κ ν :=
  ⟨insertEntry k v m.entries, ascending_insertEntry m.ascending⟩

/-- Drop the entry of `k`. -/
def erase [DecidableEq κ] (m : AscMap κ ν) (k : κ) : AscMap κ ν :=
  ⟨m.entries.filter (fun e => decide (e.1 ≠ k)), m.ascending.sublist List.filter_sublist⟩

/-- Apply `f` to the value at `k`, if there is one. -/
def modify [DecidableEq κ] (m : AscMap κ ν) (k : κ) (f : ν → ν) : AscMap κ ν :=
  ⟨m.entries.map (fun e => if e.1 = k then (e.1, f e.2) else e), by
    refine List.pairwise_map.mpr (m.ascending.imp ?_)
    intro a b h
    split <;> split <;> exact h⟩

/-- Put a value at `k` that is made from the one there, if any. -/
def upsert [LE κ] [Std.LawfulOrderLT κ] [Std.IsLinearOrder κ] [DecidableLT κ] [DecidableEq κ]
    (m : AscMap κ ν) (k : κ) (f : Option ν → ν) : AscMap κ ν :=
  m.insert k (f (m.get? k))

/-! ### Look-up after a change -/

theorem get?_insert [LE κ] [Std.LawfulOrderLT κ] [Std.IsLinearOrder κ] [DecidableLT κ]
    [DecidableEq κ] (m : AscMap κ ν) (k k' : κ) (v : ν) :
    (m.insert k v).get? k' = if k = k' then some v else m.get? k' :=
  lookupEntry_insertEntry k k' v m.entries

theorem get?_erase [DecidableEq κ] (m : AscMap κ ν) (k k' : κ) :
    (m.erase k).get? k' = if k = k' then none else m.get? k' :=
  lookupEntry_filter_ne k k' m.entries

theorem get?_modify [DecidableEq κ] (m : AscMap κ ν) (k k' : κ) (f : ν → ν) :
    (m.modify k f).get? k' = if k = k' then (m.get? k').map f else m.get? k' :=
  lookupEntry_map k k' f m.entries

end AscMap

end LockTrace
