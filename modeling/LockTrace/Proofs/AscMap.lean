import LockTrace.AscMap

/-!
# Entries of a map as a multiset

Counting something over all values of a map needs to know what one change does to the list
of entries. Up to order, an insertion at `k` is what is left without `k` and one more entry
(`insert_perm`), and a map that has a value at `k` is that value and what is left without
`k` (`perm_cons_erase`). The entry at or below a key is told by all entries, whatever their order
(`floor?_eq_some_iff`).
-/

namespace LockTrace

/-! ### Lists of entries -/

section Entries

variable {κ ν : Type}

theorem mem_of_lookupEntry [DecidableEq κ] {k : κ} {v : ν} {es : List (κ × ν)}
    (h : lookupEntry k es = some v) : (k, v) ∈ es := by
  induction es with
  | nil => cases h
  | cons e es ih =>
    simp only [lookupEntry] at h
    split at h
    · next heq =>
      obtain ⟨a, b⟩ := e
      cases h
      subst heq
      exact List.mem_cons_self
    · exact List.mem_cons_of_mem _ (ih h)

variable [LT κ] [LE κ] [Std.LawfulOrderLT κ] [Std.IsLinearOrder κ]

theorem filter_ne_eq_self_of_lt [DecidableEq κ] {k : κ} {es : List (κ × ν)}
    (h : ∀ e ∈ es, k < e.1) : es.filter (fun e => decide (e.1 ≠ k)) = es := by
  apply List.filter_eq_self.mpr
  intro e he
  have hlt : k < e.1 := h e he
  have hne : e.1 ≠ k := by grind
  simpa using hne

theorem lookupEntry_of_mem [DecidableEq κ] {k : κ} {v : ν} {es : List (κ × ν)}
    (hasc : Ascending es) (h : (k, v) ∈ es) : lookupEntry k es = some v := by
  induction es with
  | nil => cases h
  | cons e es ih =>
    obtain ⟨hlt, hrest⟩ := List.pairwise_cons.mp hasc
    rcases List.mem_cons.mp h with rfl | h
    · simp [lookupEntry]
    · have hne : e.1 ≠ k := by
        have hk : e.1 < k := hlt _ h
        grind
      simpa only [lookupEntry, if_neg hne] using ih hrest h

variable [DecidableLT κ] [DecidableEq κ]

theorem insertEntry_perm (k : κ) (v : ν) {es : List (κ × ν)} (hasc : Ascending es) :
    (insertEntry k v es).Perm ((k, v) :: es.filter (fun e => decide (e.1 ≠ k))) := by
  induction es with
  | nil => exact List.Perm.refl _
  | cons e es ih =>
    obtain ⟨hlt, hrest⟩ := List.pairwise_cons.mp hasc
    simp only [insertEntry]
    split
    · next hke =>
      have hall : ∀ d ∈ e :: es, k < d.1 := by
        intro d hd
        rcases List.mem_cons.mp hd with rfl | hd
        · exact hke
        · exact Std.lt_trans hke (hlt d hd)
      rw [filter_ne_eq_self_of_lt hall]
    · split
      · next heq =>
        subst heq
        simp only [List.filter_cons, ne_eq, not_true, decide_false, Bool.false_eq_true, if_false]
        rw [filter_ne_eq_self_of_lt hlt]
      · next hne =>
        have hkeep : decide (e.1 ≠ k) = true := by simpa using Ne.symm hne
        rw [List.filter_cons, if_pos hkeep]
        exact ((ih hrest).cons e).trans (List.Perm.swap _ _ _)

theorem insertEntry_eq_self {k : κ} {v : ν} {es : List (κ × ν)} (hasc : Ascending es)
    (h : lookupEntry k es = some v) : insertEntry k v es = es := by
  induction es with
  | nil => cases h
  | cons e es ih =>
    obtain ⟨hlt, hrest⟩ := List.pairwise_cons.mp hasc
    have hmem := mem_of_lookupEntry h
    by_cases heq : e.1 = k
    · simp only [lookupEntry, if_pos heq, Option.some.injEq] at h
      subst heq
      subst h
      have hirr : ¬ e.1 < e.1 := by grind
      simp only [insertEntry, if_neg hirr, if_true]
    · simp only [lookupEntry, if_neg heq] at h
      have hek : e.1 < k := hlt _ (mem_of_lookupEntry h)
      have hnot : ¬ k < e.1 := by grind
      simp only [insertEntry, if_neg hnot, if_neg (Ne.symm heq), ih hrest h]

omit [DecidableEq κ] in
/-- Of ascending entries, those up to the first key above `k` are those with keys not above it. -/
theorem takeWhile_not_lt_eq_filter (k : κ) {es : List (κ × ν)} (hasc : Ascending es) :
    es.takeWhile (fun e => decide (¬ k < e.1)) = es.filter (fun e => decide (¬ k < e.1)) := by
  induction es with
  | nil => rfl
  | cons e es ih =>
    obtain ⟨hlt, hrest⟩ := List.pairwise_cons.mp hasc
    by_cases hk : k < e.1
    · have hnone : es.filter (fun d => decide (¬ k < d.1)) = [] := by
        apply List.filter_eq_nil_iff.mpr
        intro d hd
        rw [decide_eq_true_eq]
        exact not_not_intro (Std.lt_trans hk (hlt d hd))
      rw [List.takeWhile_cons_of_neg (by simpa using hk),
        List.filter_cons_of_neg (by simpa using hk), hnone]
    · rw [List.takeWhile_cons_of_pos (by simpa using hk),
        List.filter_cons_of_pos (by simpa using hk), ih hrest]

end Entries

namespace AscMap

/-! ### Maps -/

variable {κ ν : Type} [LT κ] [LE κ] [Std.LawfulOrderLT κ] [Std.IsLinearOrder κ] [DecidableEq κ]

theorem mem_entries_iff {m : AscMap κ ν} {k : κ} {v : ν} :
    (k, v) ∈ m.entries ↔ m.get? k = some v :=
  ⟨lookupEntry_of_mem m.ascending, mem_of_lookupEntry⟩

theorem mem_values_iff {m : AscMap κ ν} {v : ν} : v ∈ m.values ↔ ∃ k, m.get? k = some v := by
  constructor
  · intro h
    obtain ⟨e, he, rfl⟩ := List.mem_map.mp h
    exact ⟨e.1, mem_entries_iff.mp he⟩
  · rintro ⟨k, h⟩
    exact List.mem_map.mpr ⟨(k, v), mem_entries_iff.mpr h, rfl⟩

theorem mem_keys_iff {m : AscMap κ ν} {k : κ} : k ∈ m.keys ↔ ∃ v, m.get? k = some v := by
  constructor
  · intro h
    obtain ⟨e, he, rfl⟩ := List.mem_map.mp h
    exact ⟨e.2, mem_entries_iff.mp he⟩
  · rintro ⟨v, h⟩
    exact List.mem_map.mpr ⟨(k, v), mem_entries_iff.mpr h, rfl⟩

theorem erase_eq_self {m : AscMap κ ν} {k : κ} (h : m.get? k = none) : m.erase k = m := by
  have hentries : (m.erase k).entries = m.entries := by
    apply List.filter_eq_self.mpr
    intro e he
    have hne : e.1 ≠ k := by
      rintro rfl
      have hsome := mem_entries_iff.mp he
      simp [h] at hsome
    simpa using hne
  exact (AscMap.mk.injEq ..).mpr hentries

omit [Std.IsLinearOrder κ] [DecidableEq κ] in
theorem nodup_keys (m : AscMap κ ν) : m.keys.Nodup := by
  refine List.pairwise_map.mpr (m.ascending.imp ?_)
  intro a b hlt
  exact Std.ne_of_lt hlt

section Modify

omit [LE κ] [Std.LawfulOrderLT κ] [Std.IsLinearOrder κ]

variable (m : AscMap κ ν) (k : κ) (f g : ν → ν)

theorem modify_id : m.modify k id = m := by
  have hentries : (m.modify k id).entries = m.entries := by
    unfold modify
    simp
  cases m
  exact (AscMap.mk.injEq ..).mpr hentries

theorem modify_modify : (m.modify k f).modify k g = m.modify k (g ∘ f) := by
  refine (AscMap.mk.injEq ..).mpr ?_
  unfold modify
  rw [List.map_map]
  apply List.map_congr_left
  intro e _
  by_cases h : e.1 = k <;> simp [h]

theorem modify_comm {k k' : κ} (hne : k ≠ k') :
    (m.modify k f).modify k' g = (m.modify k' g).modify k f := by
  refine (AscMap.mk.injEq ..).mpr ?_
  unfold modify
  rw [List.map_map, List.map_map]
  apply List.map_congr_left
  intro e _
  by_cases h : e.1 = k
  · simp [h, hne]
  · by_cases h' : e.1 = k' <;> simp [h, h', Ne.symm hne]

end Modify

variable [DecidableLT κ]

theorem insert_perm (m : AscMap κ ν) (k : κ) (v : ν) :
    (m.insert k v).entries.Perm ((k, v) :: (m.erase k).entries) :=
  insertEntry_perm k v m.ascending

theorem insert_eq_self {m : AscMap κ ν} {k : κ} {v : ν} (h : m.get? k = some v) :
    (m.insert k v).entries = m.entries :=
  insertEntry_eq_self m.ascending h

theorem perm_cons_erase {m : AscMap κ ν} {k : κ} {v : ν} (h : m.get? k = some v) :
    m.entries.Perm ((k, v) :: (m.erase k).entries) := by
  have hperm := m.insert_perm k v
  rwa [insert_eq_self h] at hperm

theorem values_insert_perm {m : AscMap κ ν} {k : κ} (h : m.get? k = none) (v : ν) :
    (m.insert k v).values.Perm (v :: m.values) := by
  have hperm := (m.insert_perm k v).map Prod.snd
  rwa [List.map_cons, erase_eq_self h] at hperm

theorem values_perm_cons_erase {m : AscMap κ ν} {k : κ} {v : ν} (h : m.get? k = some v) :
    m.values.Perm (v :: (m.erase k).values) :=
  (perm_cons_erase h).map Prod.snd

omit [DecidableEq κ] in
/-- The entry at or below `k` is the one with the largest key that is not above `k`. -/
theorem floor?_eq_some_iff {m : AscMap κ ν} {k : κ} {e : κ × ν} :
    m.floor? k = some e ↔
      e ∈ m.entries ∧ e.1 ≤ k ∧ ∀ d ∈ m.entries, d.1 ≤ k → d.1 ≤ e.1 := by
  unfold floor?
  rw [takeWhile_not_lt_eq_filter k m.ascending]
  have hmem : ∀ d, d ∈ m.entries.filter (fun d => decide (¬ k < d.1)) ↔
      d ∈ m.entries ∧ d.1 ≤ k := by
    intro d
    rw [List.mem_filter, decide_eq_true_eq, Std.not_lt]
  have hasc : Ascending (m.entries.filter (fun d => decide (¬ k < d.1))) :=
    m.ascending.sublist List.filter_sublist
  generalize m.entries.filter (fun d => decide (¬ k < d.1)) = es at hmem hasc
  constructor
  · intro hlast
    obtain ⟨front, rfl⟩ := List.getLast?_eq_some_iff.mp hlast
    obtain ⟨he, hek⟩ := (hmem e).mp (by simp)
    refine ⟨he, hek, fun d hd hdk => ?_⟩
    rcases List.mem_append.mp ((hmem d).mpr ⟨hd, hdk⟩) with hfront | hlast
    · exact Std.le_of_lt ((List.pairwise_append.mp hasc).2.2 d hfront e List.mem_cons_self)
    · rw [List.mem_singleton.mp hlast]
      exact Std.le_refl e.1
  · rintro ⟨he, hek, hmax⟩
    have he' : e ∈ es := (hmem e).mpr ⟨he, hek⟩
    cases hlast : es.getLast? with
    | none =>
      rw [List.getLast?_eq_none_iff.mp hlast] at he'
      cases he'
    | some last =>
      obtain ⟨front, rfl⟩ := List.getLast?_eq_some_iff.mp hlast
      rcases List.mem_append.mp he' with hfront | hsame
      · have hlt : e.1 < last.1 :=
          (List.pairwise_append.mp hasc).2.2 e hfront last List.mem_cons_self
        obtain ⟨hlast, hlastk⟩ := (hmem last).mp (by simp)
        exact absurd hlt (Std.not_lt.mpr (hmax last hlast hlastk))
      · rw [List.mem_singleton.mp hsame]

omit [DecidableEq κ] in
/-- Nothing is found exactly if all keys are above `k`. -/
theorem floor?_eq_none_iff {m : AscMap κ ν} {k : κ} :
    m.floor? k = none ↔ ∀ d ∈ m.entries, ¬ d.1 ≤ k := by
  unfold floor?
  rw [takeWhile_not_lt_eq_filter k m.ascending, List.getLast?_eq_none_iff, List.filter_eq_nil_iff]
  simp only [decide_eq_true_eq, Std.not_lt]

end AscMap

/-! ### Sums -/

theorem AscMap.total_of_perm {κ : Type} [LT κ] {m m' : AscMap κ Nat} {k : κ} {n : Nat}
    (h : m.entries.Perm ((k, n) :: m'.entries)) : m.total = n + m'.total := by
  have hsum := (h.map Prod.snd).sum_nat
  rwa [List.sum_eq_foldr, List.map_cons, List.sum_cons, List.sum_eq_foldr] at hsum

/-- The sum grows by what the new value is more than the one that it replaces. -/
theorem AscMap.total_insert {κ : Type} [LT κ] [LE κ] [Std.LawfulOrderLT κ] [Std.IsLinearOrder κ]
    [DecidableLT κ] [DecidableEq κ] (m : AscMap κ Nat) (k : κ) (n : Nat) :
    (m.insert k n).total + (m.get? k).getD 0 = m.total + n := by
  have hinsert := total_of_perm (m.insert_perm k n)
  have hbefore : m.total = (m.get? k).getD 0 + (m.erase k).total := by
    cases hget : m.get? k with
    | none =>
      have hsame : (m.erase k).total = m.total := by
        unfold total values
        rw [erase_eq_self hget]
      rw [hsame]
      exact (Nat.zero_add _).symm
    | some v => exact total_of_perm (perm_cons_erase hget)
  omega

end LockTrace
