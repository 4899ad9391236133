import LockTrace.Text.Numeral

/-!
# Numerals read back

Reading the digits of a number gives the number, up to the largest one that is allowed
(`magnitude_toDigits`), and the digits are ASCII letters and digits (`Digits`). So every word
and every signed word is read back from what is written for it.
-/

namespace LockTrace.Numeral

/-! ### Digits -/

/-- The characters of numbers as they are written. -/
def digits : List Char := "0123456789abcdef".toList

/-- A text that is not empty and has no other characters than digits. -/
structure Digits (cs : List Char) : Prop where
  nonempty : cs ≠ []
  mem : ∀ c ∈ cs, c ∈ digits

theorem isAlphanum_of_mem_digits : ∀ c ∈ digits, c.isAlphanum = true := by
  have hall : digits.all Char.isAlphanum = true := by decide
  exact List.all_eq_true.mp hall

theorem digitChar_mem_digits {d : Nat} (hd : d < 16) : d.digitChar ∈ digits := by
  have hall : ∀ d : Fin 16, d.val.digitChar ∈ digits := by decide
  exact hall ⟨d, hd⟩

theorem digit?_digitChar {base d : Nat} (hbase : base ≤ 16) (hd : d < base) :
    digit? base d.digitChar = some d := by
  have hall : ∀ d : Fin 16, digit? 16 d.val.digitChar = some d.val := by decide
  have hsome := hall ⟨d, Nat.lt_of_lt_of_le hd hbase⟩
  unfold digit? at hsome ⊢
  obtain ⟨hvalue, _⟩ := Option.filter_eq_some_iff.mp hsome
  exact Option.filter_eq_some_iff.mpr ⟨hvalue, decide_eq_true hd⟩

theorem digits_toDigits {base : Nat} (hlow : 1 < base) (hbase : base ≤ 16) (n : Nat) :
    Digits (Nat.toDigits base n) := by
  refine ⟨Nat.toDigits_ne_nil, ?_⟩
  induction n using Nat.strongRecOn with
  | ind n ih =>
    intro c hc
    rw [Nat.toDigits_eq_if hlow] at hc
    split at hc
    · next hlt =>
      rw [List.mem_singleton.mp hc]
      exact digitChar_mem_digits (Nat.lt_of_lt_of_le hlt hbase)
    · next hge =>
      have hdiv : n / base < n := Nat.div_lt_self (by omega) hlow
      rcases List.mem_append.mp hc with hc | hc
      · exact ih _ hdiv c hc
      · have hmod : n % base < base := Nat.mod_lt n (by omega)
        rw [List.mem_singleton.mp hc]
        exact digitChar_mem_digits (Nat.lt_of_lt_of_le hmod hbase)

/-- The head of a text of digits is no sign. -/
theorem Digits.head_ne {cs : List Char} (h : Digits cs) {c : Char} (hc : c ∉ digits) :
    ∃ d ds, cs = d :: ds ∧ d ≠ c := by
  cases cs with
  | nil => exact absurd rfl h.nonempty
  | cons d ds =>
    refine ⟨d, ds, rfl, ?_⟩
    intro heq
    exact hc (heq ▸ h.mem d List.mem_cons_self)

/-! ### Magnitudes -/

/-- After the digits of a number its value is known, and the reading goes on with it. -/
theorem magnitude_toDigits {base limit : Nat} (excess : Fault) (hlow : 1 < base)
    (hbase : base ≤ 16) {n : Nat} (hn : n ≤ limit) (cs : List Char) :
    magnitude base limit excess 0 (Nat.toDigits base n ++ cs) =
      magnitude base limit excess n cs := by
  induction n using Nat.strongRecOn generalizing cs with
  | ind n ih =>
    rw [Nat.toDigits_eq_if hlow]
    split
    · next hlt =>
      rw [List.singleton_append, magnitude, digit?_digitChar hbase hlt]
      simp only [Nat.zero_mul, Nat.zero_add]
      rw [if_neg (Nat.not_lt.mpr hn)]
    · next hge =>
      have hdiv : n / base < n := Nat.div_lt_self (by omega) hlow
      have hmod : n % base < base := Nat.mod_lt n (by omega)
      have hvalue : n / base * base + n % base = n := by
        rw [Nat.mul_comm]
        exact Nat.div_add_mod n base
      rw [List.append_assoc, ih _ hdiv (by omega), List.singleton_append, magnitude,
        digit?_digitChar hbase hmod]
      simp only [hvalue]
      rw [if_neg (Nat.not_lt.mpr hn)]

theorem readNat_of_digits {base bound : Nat} {cs : List Char} (h : Digits cs) :
    readNat base bound cs = magnitude base (bound - 1) .tooLarge 0 cs := by
  obtain ⟨d, ds, rfl, hne⟩ := h.head_ne (c := '+') (by decide)
  unfold readNat
  split
  · next heq => cases heq
  · next heq =>
    cases heq
    exact absurd rfl hne
  · next heq =>
    cases heq
    exact absurd rfl hne
  · rfl

theorem readNat_toDigits {base bound n : Nat} (hlow : 1 < base) (hbase : base ≤ 16)
    (hn : n < bound) : readNat base bound (Nat.toDigits base n) = .ok n := by
  have hle : n ≤ bound - 1 := by omega
  have hmagnitude := magnitude_toDigits .tooLarge hlow hbase hle []
  rw [List.append_nil] at hmagnitude
  rw [readNat_of_digits (digits_toDigits hlow hbase n), hmagnitude]
  rfl

/-! ### Words -/

theorem readWord64_toDigits {base : Nat} (hlow : 1 < base) (hbase : base ≤ 16) (w : UInt64) :
    readWord64 base (Nat.toDigits base w.toNat) = .ok w := by
  unfold readWord64
  rw [readNat_toDigits hlow hbase w.toNat_lt]
  simp [Except.map]

theorem readWord32_toDigits (w : UInt32) : readWord32 (Nat.toDigits 10 w.toNat) = .ok w := by
  unfold readWord32
  rw [readNat_toDigits (by decide) (by decide) w.toNat_lt]
  simp [Except.map]

/-! ### Signed numbers -/

theorem toList_signed (i : Int) :
    (signed i).toList =
      if i < 0 then '-' :: Nat.toDigits 10 i.natAbs else Nat.toDigits 10 i.natAbs := by
  unfold signed decimal
  split
  · simp
  · simp

theorem readInt_of_digits {base bound : Nat} {cs : List Char} (h : Digits cs) :
    readInt base bound cs = (readNat base bound cs).map (fun n => (n : Int)) := by
  obtain ⟨d, ds, rfl, hne⟩ := h.head_ne (c := '-') (by decide)
  unfold readInt
  split
  · next heq =>
    cases heq
    exact absurd rfl hne
  · next heq =>
    cases heq
    exact absurd rfl hne
  · rfl

theorem readInt_minus {base bound : Nat} {cs : List Char} (h : cs ≠ []) :
    readInt base bound ('-' :: cs) =
      (magnitude base bound .tooSmall 0 cs).map (fun n => -(n : Int)) := by
  unfold readInt
  split
  · next heq =>
    cases heq
    exact absurd rfl h
  · next heq =>
    cases heq
    rfl
  · next hne => exact absurd rfl (hne cs)

theorem readInt_signed {bound : Nat} {i : Int} (hlow : -(bound : Int) ≤ i)
    (hhigh : i < (bound : Int)) : readInt 10 bound (signed i).toList = .ok i := by
  have hdigits : Digits (Nat.toDigits 10 i.natAbs) :=
    digits_toDigits (by decide) (by decide) i.natAbs
  rw [toList_signed]
  split
  · next hneg =>
    have hle : i.natAbs ≤ bound := by omega
    have hmagnitude := magnitude_toDigits .tooSmall (show 1 < 10 by decide) (by decide) hle []
    rw [List.append_nil] at hmagnitude
    have hvalue : -(i.natAbs : Int) = i := by omega
    rw [readInt_minus hdigits.nonempty, hmagnitude]
    exact congrArg Except.ok hvalue
  · next hpos =>
    have hvalue : (i.natAbs : Int) = i := by omega
    rw [readInt_of_digits hdigits, readNat_toDigits (by decide) (by decide) (by omega)]
    exact congrArg Except.ok hvalue

theorem readInt64_signed (w : Int64) : readInt64 (signed w.toInt).toList = .ok w := by
  have hlow : -((UInt64.size / 2 : Nat) : Int) ≤ w.toInt := by simpa using w.le_toInt
  have hhigh : w.toInt < ((UInt64.size / 2 : Nat) : Int) := by simpa using w.toInt_lt
  unfold readInt64
  rw [readInt_signed hlow hhigh]
  simp [Except.map]

end LockTrace.Numeral
