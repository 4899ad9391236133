import Mathlib.Data.List.Forall2
import Mathlib.Data.Nat.Digits.Defs
import LockTrace.Proofs.Numerals

/-!
# Which texts are numerals

A numeral is told here without its reader: one or more digits of a base with the value that their
places give them (`Spells`), a plus sign in front of them if there is one (`Unsigned`), or a sign of
either kind (`Signed`). The readers accept these texts and no others, as far as the width that is
asked for has the value (`readNat_eq_ok_iff`, `readInt_eq_ok_iff`). So no value wraps around, and a
text that is read has just one.
-/

namespace LockTrace.Numeral

variable {base : Nat}

/-! ### Digits -/

/-- The digits with the letters in upper case. -/
def upperDigits : List Char := "0123456789ABCDEF".toList

/-- A character is a digit of a base, with the given value. -/
def IsDigit (base : Nat) (c : Char) (d : Nat) : Prop :=
  d < base ∧ (digits[d]? = some c ∨ upperDigits[d]? = some c)

theorem IsDigit.mem {c : Char} {d : Nat} (h : IsDigit base c d) : c ∈ digits ++ upperDigits := by
  rcases h.2 with hlower | hupper
  · exact List.mem_append_left _ (List.mem_of_getElem? hlower)
  · exact List.mem_append_right _ (List.mem_of_getElem? hupper)

theorem lt_of_digit? {c : Char} {d : Nat} (h : digit? base c = some d) :
    c.toNat < 128 ∧ d < 16 := by
  unfold digit? at h
  obtain ⟨hvalue, _⟩ := Option.filter_eq_some_iff.mp h
  simp only [Char.le_def, UInt32.le_iff_toNat_le] at hvalue
  change (if 48 ≤ c.toNat ∧ c.toNat ≤ 57 then some (c.toNat - 48)
    else if 97 ≤ c.toNat ∧ c.toNat ≤ 102 then some (c.toNat - 97 + 10)
    else if 65 ≤ c.toNat ∧ c.toNat ≤ 70 then some (c.toNat - 65 + 10)
    else none) = some d at hvalue
  split_ifs at hvalue
  all_goals
    have hd := Option.some.inj hvalue
    omega

/-- A digit of a base is one of base 16 whose value the base has. -/
theorem digit?_eq_some_iff_hex {c : Char} {d : Nat} :
    digit? base c = some d ↔ d < base ∧ digit? 16 c = some d := by
  constructor
  · intro h
    have hd := (lt_of_digit? h).2
    unfold digit? at h ⊢
    obtain ⟨hvalue, hbase⟩ := Option.filter_eq_some_iff.mp h
    exact ⟨of_decide_eq_true hbase, Option.filter_eq_some_iff.mpr ⟨hvalue, decide_eq_true hd⟩⟩
  · rintro ⟨hbase, h⟩
    unfold digit? at h ⊢
    obtain ⟨hvalue, _⟩ := Option.filter_eq_some_iff.mp h
    exact Option.filter_eq_some_iff.mpr ⟨hvalue, decide_eq_true hbase⟩

theorem digit?_eq_some_iff {c : Char} {d : Nat} : digit? base c = some d ↔ IsDigit base c d := by
  rw [digit?_eq_some_iff_hex, IsDigit]
  apply and_congr_right
  intro _
  constructor
  · intro h
    have hall : ∀ n : Fin 128, ∀ d ∈ digit? 16 (Char.ofNat n),
        digits[d]? = some (Char.ofNat n) ∨ upperDigits[d]? = some (Char.ofNat n) := by decide
    have hc := hall ⟨c.toNat, (lt_of_digit? h).1⟩ d
    rw [Char.ofNat_toNat] at hc
    exact hc h
  · intro h
    have hlower : ∀ d : Fin 16, digits[d.val]?.bind (digit? 16) = some d.val := by decide
    have hupper : ∀ d : Fin 16, upperDigits[d.val]?.bind (digit? 16) = some d.val := by decide
    rcases h with h | h
    · have hd : d < 16 := (List.getElem?_eq_some_iff.mp h).1
      have hread := hlower ⟨d, hd⟩
      rwa [h] at hread
    · have hd : d < 16 := (List.getElem?_eq_some_iff.mp h).1
      have hread := hupper ⟨d, hd⟩
      rwa [h] at hread

/-! ### Digits with their places -/

/-- One or more digits of a base, and the value that their places give them. -/
def Spells (base : Nat) (cs : List Char) (n : Nat) : Prop :=
  cs ≠ [] ∧ ∃ ds, List.Forall₂ (IsDigit base) cs ds ∧ Nat.ofDigits base ds.reverse = n

/-- No sign, mark or letter of a missing value is a digit. -/
theorem Spells.not_mem {cs : List Char} {n : Nat} (h : Spells base cs n) {c : Char}
    (hc : c ∉ digits ++ upperDigits) : c ∉ cs := by
  obtain ⟨_, ds, hdigits, _⟩ := h
  clear * - hdigits hc
  induction hdigits with
  | nil => simp
  | cons hd _ ih =>
    intro hmem
    rcases List.mem_cons.mp hmem with rfl | hmem
    · exact hc hd.mem
    · exact ih hmem

/-- A reader that has the value `acc` in front of the digits comes to the value of all, if it is
    within the limit. -/
theorem magnitude_eq_ok_iff {limit acc n : Nat} {excess : Fault} {cs : List Char}
    (hbase : 0 < base) (hacc : acc ≤ limit) :
    magnitude base limit excess acc cs = .ok n ↔
      ∃ ds, List.Forall₂ (IsDigit base) cs ds ∧
        Nat.ofDigits base ds.reverse + base ^ cs.length * acc = n ∧ n ≤ limit := by
  induction cs generalizing acc with
  | nil =>
    simp only [magnitude, List.forall₂_nil_left_iff, exists_eq_left]
    simp only [List.reverse_nil, Nat.ofDigits_nil, List.length_nil, pow_zero, one_mul, zero_add]
    constructor
    · rintro ⟨⟩
      exact ⟨rfl, hacc⟩
    · rintro ⟨rfl, _⟩
      rfl
  | cons c cs ih =>
    have hplaces : ∀ d (ds : List Nat), List.Forall₂ (IsDigit base) cs ds →
        Nat.ofDigits base (d :: ds).reverse + base ^ (c :: cs).length * acc =
          Nat.ofDigits base ds.reverse + base ^ cs.length * (acc * base + d) := by
      intro d ds hds
      rw [List.reverse_cons, Nat.ofDigits_append, Nat.ofDigits_singleton, List.length_reverse,
        List.length_cons, hds.length_eq]
      ring
    rw [magnitude]
    cases hdigit : digit? base c with
    | none =>
      simp only [reduceCtorEq, List.forall₂_cons_left_iff, false_iff]
      rintro ⟨_, ⟨d, _, hd, _⟩, _⟩
      rw [digit?_eq_some_iff.mpr hd] at hdigit
      cases hdigit
    | some d =>
      have hd : IsDigit base c d := digit?_eq_some_iff.mp hdigit
      have hone : ∀ d', IsDigit base c d' → d' = d := by
        intro d' hd'
        rw [digit?_eq_some_iff.mpr hd'] at hdigit
        exact Option.some.inj hdigit
      simp only
      split
      · next hlarge =>
        simp only [reduceCtorEq, false_iff]
        rintro ⟨_, hall, hvalue, hle⟩
        obtain ⟨d', ds, hd', hds, rfl⟩ := List.forall₂_cons_left_iff.mp hall
        rw [hone d' hd', hplaces d ds hds] at hvalue
        have hpow : 1 * (acc * base + d) ≤ base ^ cs.length * (acc * base + d) :=
          Nat.mul_le_mul_right _ (Nat.pow_pos hbase)
        omega
      · next hsmall =>
        rw [ih (Nat.not_lt.mp hsmall)]
        constructor
        · rintro ⟨ds, hds, hvalue, hle⟩
          exact ⟨d :: ds, .cons hd hds, (hplaces d ds hds).trans hvalue, hle⟩
        · rintro ⟨_, hall, hvalue, hle⟩
          obtain ⟨d', ds, hd', hds, rfl⟩ := List.forall₂_cons_left_iff.mp hall
          rw [hone d' hd', hplaces d ds hds] at hvalue
          exact ⟨ds, hds, hvalue, hle⟩

theorem magnitude_zero_eq_ok_iff {limit n : Nat} {excess : Fault} {cs : List Char}
    (hbase : 0 < base) (hcs : cs ≠ []) :
    magnitude base limit excess 0 cs = .ok n ↔ Spells base cs n ∧ n ≤ limit := by
  rw [magnitude_eq_ok_iff hbase (Nat.zero_le limit)]
  simp only [Nat.mul_zero, Nat.add_zero, Spells, ne_eq, hcs, not_false_iff, true_and]
  constructor
  · rintro ⟨ds, hds, hvalue, hle⟩
    exact ⟨⟨ds, hds, hvalue⟩, hle⟩
  · rintro ⟨⟨ds, hds, hvalue⟩, hle⟩
    exact ⟨ds, hds, hvalue, hle⟩

/-! ### Numerals -/

/-- A number without a sign, or with a plus sign in front. -/
def Unsigned (base : Nat) (cs : List Char) (n : Nat) : Prop :=
  Spells base cs n ∨ ∃ ds, cs = '+' :: ds ∧ Spells base ds n

/-- A number, or one with a minus sign in front. -/
def Signed (base : Nat) (cs : List Char) (i : Int) : Prop :=
  (∃ n : Nat, Unsigned base cs n ∧ i = n) ∨
    ∃ ds n, cs = '-' :: ds ∧ Spells base ds n ∧ i = -(n : Int)

theorem spells_ne_cons {cs ds : List Char} {n : Nat} {c : Char} (h : Spells base cs n)
    (hc : c ∉ digits ++ upperDigits) : cs ≠ c :: ds := by
  rintro rfl
  exact h.not_mem hc List.mem_cons_self

theorem unsigned_plus_iff {cs : List Char} {n : Nat} :
    Unsigned base ('+' :: cs) n ↔ Spells base cs n := by
  constructor
  · rintro (h | ⟨ds, heq, h⟩)
    · exact absurd rfl (spells_ne_cons h (by decide))
    · rwa [(List.cons.inj heq).2]
  · intro h
    exact Or.inr ⟨cs, rfl, h⟩

theorem unsigned_iff_of_ne {cs : List Char} {n : Nat} (h : ∀ ds, cs ≠ '+' :: ds) :
    Unsigned base cs n ↔ Spells base cs n := by
  constructor
  · rintro (hspells | ⟨ds, heq, _⟩)
    · exact hspells
    · exact absurd heq (h ds)
  · exact Or.inl

/-- The reader of numbers accepts the numerals with a value below the bound. -/
theorem readNat_eq_ok_iff {bound n : Nat} {cs : List Char} (hbase : 0 < base)
    (hbound : 0 < bound) : readNat base bound cs = .ok n ↔ Unsigned base cs n ∧ n < bound := by
  have hlimit : n ≤ bound - 1 ↔ n < bound := by omega
  unfold readNat
  split
  · simp [Unsigned, Spells]
  · simp [unsigned_plus_iff, Spells]
  · next ds hds =>
    rw [magnitude_zero_eq_ok_iff hbase (by simpa using hds), unsigned_plus_iff, hlimit]
  · next hempty _ hplus =>
    rw [magnitude_zero_eq_ok_iff hbase hempty, unsigned_iff_of_ne hplus, hlimit]

theorem not_unsigned_minus {cs : List Char} {n : Nat} : ¬ Unsigned base ('-' :: cs) n := by
  rintro (h | ⟨ds, heq, _⟩)
  · exact spells_ne_cons h (by decide) rfl
  · cases heq

theorem map_cast_eq_ok_iff {r : Except Fault Nat} {f : Int → Int} {i : Int} :
    Except.map f (do let n ← r; pure (n : Int)) = .ok i ↔ ∃ n : Nat, r = .ok n ∧ f n = i := by
  cases r with
  | error fault => exact iff_of_false nofun nofun
  | ok n => simp [bind, Except.bind, pure, Except.pure, Except.map]

/-- The reader of integers accepts the numerals with a value from the negated bound up to the
    bound. -/
theorem readInt_eq_ok_iff {bound : Nat} {cs : List Char} {i : Int} (hbase : 0 < base)
    (hbound : 0 < bound) :
    readInt base bound cs = .ok i ↔ Signed base cs i ∧ -(bound : Int) ≤ i ∧ i < bound := by
  unfold readInt
  split
  · simp [Signed, not_unsigned_minus, Spells]
  · next ds hds =>
    have hne : ds ≠ [] := by simpa using hds
    simp only [map_cast_eq_ok_iff, magnitude_zero_eq_ok_iff hbase hne, Signed, not_unsigned_minus,
      false_and, exists_false, false_or]
    constructor
    · rintro ⟨n, ⟨hspells, hle⟩, rfl⟩
      exact ⟨⟨ds, n, rfl, hspells, rfl⟩, by omega⟩
    · rintro ⟨⟨ds, n, ⟨⟩, hspells, rfl⟩, hlow, _⟩
      exact ⟨n, ⟨hspells, by omega⟩, rfl⟩
  · next _ hminus =>
    simp only [map_cast_eq_ok_iff, readNat_eq_ok_iff hbase hbound]
    constructor
    · rintro ⟨n, ⟨hspells, hlt⟩, rfl⟩
      exact ⟨Or.inl ⟨n, hspells, rfl⟩, by omega⟩
    · rintro ⟨⟨n, hspells, rfl⟩ | ⟨ds, _, heq, _⟩, _, hlt⟩
      · exact ⟨n, ⟨hspells, by omega⟩, rfl⟩
      · exact absurd heq (hminus ds)

/-! ### Words -/

theorem map_eq_ok_iff {α β : Type} {r : Except Fault α} {f : α → β} {b : β} :
    r.map f = .ok b ↔ ∃ a, r = .ok a ∧ f a = b := by
  cases r with
  | error fault => exact iff_of_false nofun nofun
  | ok a => simp [Except.map]

theorem readWord64_eq_ok_iff {cs : List Char} {w : UInt64} (hbase : 0 < base) :
    readWord64 base cs = .ok w ↔ Unsigned base cs w.toNat := by
  simp only [readWord64, map_eq_ok_iff, readNat_eq_ok_iff hbase (show 0 < UInt64.size by decide)]
  constructor
  · rintro ⟨n, ⟨hn, hlt⟩, rfl⟩
    rwa [UInt64.toNat_ofNat_of_lt' hlt]
  · intro h
    exact ⟨w.toNat, ⟨h, w.toNat_lt⟩, UInt64.ofNat_toNat⟩

theorem readWord32_eq_ok_iff {cs : List Char} {w : UInt32} :
    readWord32 cs = .ok w ↔ Unsigned 10 cs w.toNat := by
  simp only [readWord32, map_eq_ok_iff,
    readNat_eq_ok_iff (show 0 < 10 by decide) (show 0 < UInt32.size by decide)]
  constructor
  · rintro ⟨n, ⟨hn, hlt⟩, rfl⟩
    rwa [UInt32.toNat_ofNat_of_lt' hlt]
  · intro h
    exact ⟨w.toNat, ⟨h, w.toNat_lt⟩, UInt32.ofNat_toNat⟩

theorem readInt64_eq_ok_iff {cs : List Char} {w : Int64} :
    readInt64 cs = .ok w ↔ Signed 10 cs w.toInt := by
  simp only [readInt64, map_eq_ok_iff,
    readInt_eq_ok_iff (show 0 < 10 by decide) (show 0 < UInt64.size / 2 by decide)]
  constructor
  · rintro ⟨i, ⟨hi, hlow, hhigh⟩, rfl⟩
    rwa [Int64.toInt_ofInt_of_le hlow hhigh]
  · intro h
    exact ⟨w.toInt, ⟨h, w.le_toInt, w.toInt_lt⟩, Int64.ofInt_toInt w⟩

end LockTrace.Numeral
