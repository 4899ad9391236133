import LockTrace.Text.Bytes
import LockTrace.Text.Columns

/-!
# Lines read back

A text is written as UTF-8 and with a line feed after each line. Cutting the bytes into lines
and reading each as UTF-8 gives the lines back (`lines_ofLines`, `chars?_ofChars`), as long as
no line holds a line feed or ends with a carriage return. In the other direction, no line of a
file holds a line feed, whatever its bytes are (`lineFeed_not_mem_of_mem_lines`).
-/

namespace LockTrace

/-! ### Pieces of a list -/

namespace Text

variable {α : Type}

/-- What lies between the elements at which a list is cut is none of them. -/
theorem not_of_mem_splitOnP {p : α → Bool} {xs piece : List α} (h : piece ∈ xs.splitOnP p) :
    ∀ x ∈ piece, p x = false := by
  induction xs generalizing piece with
  | nil =>
    rw [List.splitOnP_nil, List.mem_singleton] at h
    rw [h]
    simp
  | cons x xs ih =>
    rw [List.splitOnP_cons_eq_if_modifyHead] at h
    split at h
    · rcases List.mem_cons.mp h with rfl | h
      · simp
      · exact ih h
    · next hx =>
      obtain ⟨first, rest, hsplit⟩ := List.exists_cons_of_ne_nil (List.splitOnP_ne_nil p xs)
      rw [hsplit, List.modifyHead_cons] at h
      rcases List.mem_cons.mp h with rfl | h
      · have hfirst := ih (hsplit ▸ List.mem_cons_self)
        exact List.forall_mem_cons.mpr ⟨(Bool.not_eq_true _).mp hx, hfirst⟩
      · exact ih (hsplit ▸ List.mem_cons_of_mem _ h)

variable [BEq α] [LawfulBEq α]

/-- What lies between two separators holds none. -/
theorem not_mem_of_mem_splitOn {a : α} {xs piece : List α} (h : piece ∈ xs.splitOn a) :
    a ∉ piece := by
  rw [List.splitOn_eq_splitOnP] at h
  intro hmem
  have hne := not_of_mem_splitOnP h a hmem
  rw [beq_self_eq_true] at hne
  cases hne

omit [LawfulBEq α] in
/-- A piece of a list has only elements of the list. -/
theorem mem_of_mem_splitOn {a x : α} {xs piece : List α} (h : piece ∈ xs.splitOn a)
    (hx : x ∈ piece) : x ∈ xs := by
  induction xs generalizing piece with
  | nil =>
    rw [List.splitOn_nil, List.mem_singleton] at h
    rw [h] at hx
    cases hx
  | cons y xs ih =>
    rw [List.splitOn_cons_eq_if_modifyHead] at h
    split at h
    · rcases List.mem_cons.mp h with rfl | h
      · cases hx
      · exact List.mem_cons_of_mem _ (ih h hx)
    · obtain ⟨p, ps, hsplit⟩ := List.exists_cons_of_ne_nil (List.splitOn_ne_nil a xs)
      rw [hsplit, List.modifyHead_cons] at h
      rcases List.mem_cons.mp h with rfl | h
      · rcases List.mem_cons.mp hx with rfl | hx
        · exact List.mem_cons_self
        · exact List.mem_cons_of_mem _ (ih (hsplit ▸ List.mem_cons_self) hx)
      · exact List.mem_cons_of_mem _ (ih (hsplit ▸ List.mem_cons_of_mem _ h) hx)

/-- Pieces with a separator after each, and what follows the last one. -/
theorem splitOn_flatMap_append_of_not_mem {a : α} {pieces : List (List α)} {rest : List α}
    (h : ∀ p ∈ pieces, a ∉ p) (hrest : a ∉ rest) :
    (pieces.flatMap (· ++ [a]) ++ rest).splitOn a = pieces ++ [rest] := by
  induction pieces with
  | nil => exact List.splitOn_eq_singleton hrest
  | cons p ps ih =>
    rw [List.flatMap_cons, List.append_assoc, List.append_assoc, List.singleton_append,
      List.splitOn_append_cons_self_of_not_mem (h p List.mem_cons_self),
      ih (fun q hq => h q (List.mem_cons_of_mem _ hq)), List.cons_append]

theorem splitOn_flatMap_append {a : α} {pieces : List (List α)} (h : ∀ p ∈ pieces, a ∉ p) :
    (pieces.flatMap (· ++ [a])).splitOn a = pieces ++ [[]] := by
  rw [← splitOn_flatMap_append_of_not_mem h List.not_mem_nil, List.append_nil]

end Text

namespace Bytes

/-! ### UTF-8 -/

/-- A byte below 128 stands for itself only. -/
theorem toNat_of_mem_utf8EncodeChar {c : Char} {b : UInt8} (h : b ∈ String.utf8EncodeChar c)
    (hb : b.toNat < 128) : c.toNat = b.toNat := by
  have hlarge : ∀ n, 128 ≤ n → n < 256 → b ≠ UInt8.ofNat n := by
    intro n hlow hhigh heq
    rw [heq, UInt8.toNat_ofNat_of_lt' hhigh] at hb
    omega
  unfold String.utf8EncodeChar at h
  simp only at h
  split at h
  · next hsmall =>
    rw [List.mem_singleton.mp h, UInt8.toNat_ofNat_of_lt' (Nat.lt_of_le_of_lt hsmall (by decide))]
    rfl
  · exfalso
    split at h
    · simp only [List.mem_cons, List.not_mem_nil, or_false] at h
      rcases h with h | h
      all_goals exact hlarge _ (by omega) (by omega) h
    · split at h
      · simp only [List.mem_cons, List.not_mem_nil, or_false] at h
        rcases h with h | h | h
        all_goals exact hlarge _ (by omega) (by omega) h
      · simp only [List.mem_cons, List.not_mem_nil, or_false] at h
        rcases h with h | h | h | h
        all_goals exact hlarge _ (by omega) (by omega) h

theorem utf8EncodeChar_ascii {c : Char} (h : c.toNat < 128) :
    String.utf8EncodeChar c = [UInt8.ofNat c.toNat] := by
  unfold String.utf8EncodeChar
  exact if_pos (Nat.le_of_lt_succ h)

theorem eq_of_toNat_eq {c d : Char} (h : c.toNat = d.toNat) : c = d := by
  rw [← Char.ofNat_toNat c, ← Char.ofNat_toNat d, h]

@[simp] theorem ofChars_append (cs ds : List Char) :
    ofChars (cs ++ ds) = ofChars cs ++ ofChars ds :=
  List.flatMap_append

/-- The byte of an ASCII character comes from that character only. -/
theorem mem_ofChars_iff {c : Char} (hc : c.toNat < 128) {cs : List Char} :
    UInt8.ofNat c.toNat ∈ ofChars cs ↔ c ∈ cs := by
  have hbyte : (UInt8.ofNat c.toNat).toNat = c.toNat :=
    UInt8.toNat_ofNat_of_lt' (Nat.lt_trans hc (by decide))
  constructor
  · intro h
    obtain ⟨d, hd, hmem⟩ := List.mem_flatMap.mp h
    have hsame := toNat_of_mem_utf8EncodeChar hmem (by omega)
    rw [eq_of_toNat_eq (hbyte.symm.trans hsame.symm)]
    exact hd
  · intro h
    refine List.mem_flatMap.mpr ⟨c, h, ?_⟩
    rw [utf8EncodeChar_ascii hc]
    exact List.mem_cons_self

theorem toByteArray_eq (bs : Bytes) : ByteArray.mk bs.toArray = bs.toByteArray :=
  ByteArray.ext List.data_toByteArray.symm

theorem chars?_ofChars (cs : List Char) : chars? (ofChars cs) = some cs := by
  have hdecode := List.utf8Decode?_utf8Encode (l := cs)
  unfold chars? ofChars
  rw [toByteArray_eq]
  exact congrArg (Option.map Array.toList) hdecode

theorem eq_ofChars_of_chars? {bs : Bytes} {cs : List Char} (h : chars? bs = some cs) :
    bs = ofChars cs := by
  unfold chars? at h
  rw [toByteArray_eq] at h
  obtain ⟨decoded, hdecoded, rfl⟩ := Option.map_eq_some_iff.mp h
  have hsome : bs.toByteArray.utf8Decode?.isSome := by
    rw [hdecoded]
    rfl
  have hencode : (bs.toByteArray.utf8Decode?.get hsome).toList.utf8Encode = bs.toByteArray :=
    ByteArray.utf8Encode_get_utf8Decode?
  simp only [hdecoded, Option.get_some] at hencode
  exact (List.toByteArray_inj.mp hencode).symm

/-! ### Lines -/

theorem dropReturn_eq_self {line : Bytes} (h : line.getLast? ≠ some carriageReturn) :
    dropReturn line = line := if_neg h

/-- A text that does not end with a carriage return has bytes that do not either. -/
theorem getLast?_ofChars_ne {cs : List Char} (h : cs.getLast? ≠ some '\r') :
    (ofChars cs).getLast? ≠ some carriageReturn := by
  intro hlast
  cases hend : cs.getLast? with
  | none =>
    rw [List.getLast?_eq_none_iff.mp hend] at hlast
    cases hlast
  | some c =>
    obtain ⟨front, rfl⟩ := List.getLast?_eq_some_iff.mp hend
    -- the last byte is one of the last character's, and that is no carriage return
    obtain ⟨b, hb⟩ : ∃ b, (ofChars [c]).getLast? = some b := by
      refine Option.ne_none_iff_exists'.mp ?_
      intro hnone
      have hempty : String.utf8EncodeChar c ++ [] = [] := List.getLast?_eq_none_iff.mp hnone
      simp at hempty
    rw [ofChars_append, List.getLast?_append, hb] at hlast
    cases hlast
    have hc : '\r' ∈ [c] :=
      (mem_ofChars_iff (c := '\r') (by decide)).mp (List.mem_of_getLast? hb)
    rw [hend, List.mem_singleton.mp hc] at h
    exact h rfl

theorem lines_ofLines {ls : List (List Char)}
    (h : ∀ l ∈ ls, '\n' ∉ l ∧ l.getLast? ≠ some '\r') :
    lines (ofString (Text.ofLines ls)) = ls.map ofChars := by
  have hbytes : ofString (Text.ofLines ls) = (ls.map ofChars).flatMap (· ++ [lineFeed]) := by
    unfold ofString Text.ofLines ofChars
    rw [String.toList_ofList, List.flatMap_assoc, List.flatMap_map]
    refine congrArg (List.flatMap · ls) (funext fun l => ?_)
    rw [List.flatMap_append]
    rfl
  have hsplit : (ofString (Text.ofLines ls)).splitOn lineFeed = ls.map ofChars ++ [[]] := by
    rw [hbytes]
    apply Text.splitOn_flatMap_append
    intro bs hbs hmem
    obtain ⟨l, hl, rfl⟩ := List.mem_map.mp hbs
    exact (h l hl).1 ((mem_ofChars_iff (c := '\n') (by decide)).mp hmem)
  unfold lines
  simp only [hsplit, List.getLast?_concat, List.dropLast_concat, Option.getD_some,
    List.isEmpty_nil, if_true, List.append_nil]
  rw [List.map_map]
  refine List.map_congr_left fun l hl => ?_
  exact dropReturn_eq_self (getLast?_ofChars_ne (h l hl).2)

theorem lineFeed_not_mem_of_mem_lines {bs line : Bytes} (h : line ∈ lines bs) :
    lineFeed ∉ line := by
  unfold lines at h
  rcases List.mem_append.mp h with h | h
  · obtain ⟨piece, hpiece, rfl⟩ := List.mem_map.mp h
    have hfree := Text.not_mem_of_mem_splitOn (List.dropLast_subset _ hpiece)
    intro hmem
    unfold dropReturn at hmem
    split at hmem
    · exact hfree (List.dropLast_subset _ hmem)
    · exact hfree hmem
  · split at h
    · cases h
    · rw [List.mem_singleton.mp h]
      cases hlast : (bs.splitOn lineFeed).getLast? with
      | none => exact List.not_mem_nil
      | some last => exact Text.not_mem_of_mem_splitOn (List.mem_of_getLast? hlast)

end Bytes

end LockTrace
