import Mathlib.Data.List.TakeWhile
import LockTrace.Proofs.Lines
import LockTrace.Proofs.Numerals
import LockTrace.Trace.Printer
import LockTrace.Trace.Reader

/-!
# Traces read back

Reading a trace that was printed gives its events, if the delimiter is no character of a number
or of a word that stands for something (`Trace.Separates`), and the texts of the events keep to
their columns (`Trace.Writable`). Texts that were read always do, so whatever can be read can be
printed and read again.

The two halves are a row and its line. A row is read back column by column (`readRow_printRow`);
a line is cut where its columns were joined, and a text where its lines end.
-/

namespace LockTrace

/-- The texts of an event. -/
def Event.texts (e : Event) : List String := [e.typeName, e.site.file, e.site.function]

namespace Trace

open Numeral (Digits decimal signed hexadecimal)

/-! ### What can be written -/

/-- A character that can stand between two columns: no ASCII letter or digit, no minus sign and
    no line feed. -/
def Separates (delimiter : Char) : Prop :=
  delimiter.isAlphanum = false ∧ delimiter ≠ '-' ∧ delimiter ≠ '\n'

instance (delimiter : Char) : Decidable (Separates delimiter) := inferInstanceAs (Decidable (_ ∧ _))

/-- A text that keeps to its column and is not taken for a missing value. -/
def Fits (delimiter : Char) (s : String) : Prop :=
  delimiter ∉ s.toList ∧ '\n' ∉ s.toList ∧ s ≠ "NULL"

instance (delimiter : Char) (s : String) : Decidable (Fits delimiter s) :=
  inferInstanceAs (Decidable (_ ∧ _))

/-- The texts of an event keep to their columns. -/
def Writable (delimiter : Char) (e : Event) : Prop := ∀ s ∈ e.texts, Fits delimiter s

instance (delimiter : Char) (e : Event) : Decidable (Writable delimiter e) :=
  inferInstanceAs (Decidable (∀ s ∈ e.texts, _))

/-! ### Columns -/

/-- The text of a column: it ends neither the column nor the line. -/
structure InColumn (delimiter : Char) (cs : List Char) : Prop where
  delimiter : delimiter ∉ cs
  lineFeed : '\n' ∉ cs

instance (delimiter : Char) (cs : List Char) : Decidable (InColumn delimiter cs) :=
  decidable_of_iff (delimiter ∉ cs ∧ '\n' ∉ cs)
    ⟨fun h => ⟨h.1, h.2⟩, fun h => ⟨h.delimiter, h.lineFeed⟩⟩

/-- A word of ASCII letters and digits. -/
structure IsWord (cs : List Char) : Prop where
  nonempty : cs ≠ []
  alphanum : ∀ c ∈ cs, c.isAlphanum = true

theorem IsWord.of_all {cs : List Char} (hne : cs ≠ []) (hall : cs.all Char.isAlphanum = true) :
    IsWord cs :=
  ⟨hne, List.all_eq_true.mp hall⟩

theorem IsWord.of_digits {cs : List Char} (h : Digits cs) : IsWord cs :=
  ⟨h.nonempty, fun c hc => Numeral.isAlphanum_of_mem_digits c (h.mem c hc)⟩

theorem isWord_missing : IsWord missing := .of_all (by decide) (by decide)

theorem IsWord.not_mem {cs : List Char} (h : IsWord cs) {c : Char} (hc : c.isAlphanum = false) :
    c ∉ cs := by
  intro hmem
  rw [h.alphanum c hmem] at hc
  cases hc

theorem IsWord.inColumn {delimiter : Char} (hd : Separates delimiter) {cs : List Char}
    (h : IsWord cs) : InColumn delimiter cs :=
  ⟨h.not_mem hd.1, h.not_mem (by decide)⟩

theorem isWord_decimal (n : Nat) : IsWord (decimal n).toList := by
  unfold decimal
  rw [String.toList_ofList]
  exact IsWord.of_digits (Numeral.digits_toDigits (by decide) (by decide) n)

theorem isWord_hexadecimal (n : Nat) : IsWord (hexadecimal n).toList := by
  unfold hexadecimal
  rw [String.toList_ofList]
  exact IsWord.of_digits (Numeral.digits_toDigits (by decide) (by decide) n)

theorem inColumn_signed {delimiter : Char} (hd : Separates delimiter) (i : Int) :
    InColumn delimiter (signed i).toList := by
  have hword : IsWord (Nat.toDigits 10 i.natAbs) :=
    IsWord.of_digits (Numeral.digits_toDigits (by decide) (by decide) i.natAbs)
  rw [Numeral.toList_signed]
  split
  · constructor
    · simp [hd.2.1, hword.not_mem hd.1]
    · simp [hword.not_mem (c := '\n') (by decide)]
  · exact hword.inColumn hd

theorem inColumn_printText {delimiter : Char} (hd : Separates delimiter) {s : String}
    (h : Fits delimiter s) : InColumn delimiter (printText s) := by
  unfold printText
  split
  · exact isWord_missing.inColumn hd
  · exact ⟨h.1, h.2.1⟩

/-! ### One column read back -/

theorem readColumn_of_ne {α : Type} {column : String} {absent : α}
    {read : List Char → Except Numeral.Fault α} {value : List Char} {a : α}
    (hne : value ≠ missing) (hread : read value = .ok a) :
    readColumn column absent read value = .ok a := by
  unfold readColumn
  rw [if_neg hne, hread]
  rfl

/-- A text with a digit in front is no missing value. -/
theorem ne_missing_of_digits {cs : List Char} (h : Digits cs) : cs ≠ missing := by
  obtain ⟨d, ds, rfl, hne⟩ := h.head_ne (c := 'N') (by decide)
  intro heq
  exact hne (List.cons.inj heq).1

theorem digits_decimal (n : Nat) : Digits (Nat.toDigits 10 n) :=
  Numeral.digits_toDigits (by decide) (by decide) n

theorem readDecimal64_decimal (column : String) (w : UInt64) :
    readDecimal64 column (decimal w.toNat).toList = .ok w := by
  unfold decimal
  rw [String.toList_ofList]
  exact readColumn_of_ne (ne_missing_of_digits (digits_decimal _))
    (Numeral.readWord64_toDigits (by decide) (by decide) w)

theorem readLineNumber_decimal (w : UInt32) : readLineNumber (decimal w.toNat).toList = .ok w := by
  unfold decimal
  rw [String.toList_ofList]
  exact readColumn_of_ne (ne_missing_of_digits (digits_decimal _)) (Numeral.readWord32_toDigits w)

theorem readCtx_signed (w : Int64) : readCtx (signed w.toInt).toList = .ok w := by
  refine readColumn_of_ne ?_ (Numeral.readInt64_signed w)
  rw [Numeral.toList_signed]
  split
  · intro heq
    exact absurd (List.cons.inj heq).1 (by decide)
  · exact ne_missing_of_digits (digits_decimal _)

/-- Without an `x` there is no mark. -/
theorem dropHexMark_of_digits {cs : List Char} (h : Digits cs) : dropHexMark cs = cs := by
  have hfree : ∀ c, c ∉ Numeral.digits → c ∉ cs := fun c hc hmem => hc (h.mem c hmem)
  unfold dropHexMark
  split
  · exact absurd (List.mem_cons_of_mem _ List.mem_cons_self) (hfree 'x' (by decide))
  · exact absurd (List.mem_cons_of_mem _ List.mem_cons_self) (hfree 'X' (by decide))
  · rfl

theorem readHex64_hexadecimal (column : String) (w : UInt64) :
    readHex64 column (hexadecimal w.toNat).toList = .ok w := by
  have hdigits : Digits (Nat.toDigits 16 w.toNat) :=
    Numeral.digits_toDigits (by decide) (by decide) w.toNat
  unfold hexadecimal
  rw [String.toList_ofList]
  refine readColumn_of_ne (ne_missing_of_digits hdigits) ?_
  rw [dropHexMark_of_digits hdigits]
  exact Numeral.readWord64_toDigits (by decide) (by decide) w

theorem readCode_decimal (column : String) {n : Nat} (hn : n < UInt64.size / 2) :
    readCode column (decimal n).toList = .ok (n : Int) := by
  unfold decimal
  rw [String.toList_ofList]
  refine readColumn_of_ne (ne_missing_of_digits (digits_decimal n)) ?_
  rw [Numeral.readInt_of_digits (digits_decimal n),
    Numeral.readNat_toDigits (by decide) (by decide) hn]
  rfl

theorem readFlags_decimal (w : UInt32) : readFlags (decimal w.toNat).toList = .ok w := by
  have hword : (UInt64.ofNat w.toNat).toNat = w.toNat :=
    UInt64.toNat_ofNat_of_lt' (Nat.lt_trans w.toNat_lt (by decide))
  have hread := readDecimal64_decimal "flags" (UInt64.ofNat w.toNat)
  rw [hword] at hread
  have hmark : hasHexMark (decimal w.toNat).toList = false := by
    unfold hasHexMark decimal
    rw [String.toList_ofList, dropHexMark_of_digits (digits_decimal _)]
    exact bne_self_eq_false _
  unfold readFlags
  simp only [hmark, Bool.false_eq_true, if_false, hread]
  refine (if_pos ?_).trans ?_
  · rw [hword]
    exact w.toNat_lt
  · rw [hword, UInt32.ofNat_toNat]

theorem readText_printText {delimiter : Char} {s : String} (h : Fits delimiter s) :
    readText (printText s) = s := by
  unfold printText readText
  split
  · next hempty =>
    rw [if_pos rfl]
    exact (String.isEmpty_iff.mp hempty).symm
  · have hne : s.toList ≠ missing := fun heq => h.2.2 (String.toList_injective heq)
    rw [if_neg hne, String.ofList_toList]

/-! ### Rows -/

theorem readLockOperation_of_columns {r : Row} (op : LockOp) (irqSync : IrqSync) {flags : UInt32}
    (hop : r.lockOp = (decimal op.code).toList) (hirq : r.irqSync = (decimal irqSync.code).toList)
    (hflags : r.flags = (decimal flags.toNat).toList) :
    readLockOperation r = .ok (Operation.ofLockOp op irqSync flags) := by
  have hopCode : op.code < UInt64.size / 2 := by
    rcases op with side | side <;> cases side <;> decide
  have hirqCode : irqSync.code < UInt64.size / 2 := by
    cases irqSync <;> decide
  have hpresent : r.lockOp ≠ missing := by
    rw [hop, decimal, String.toList_ofList]
    exact ne_missing_of_digits (digits_decimal _)
  unfold readLockOperation
  rw [if_neg hpresent, hop, hirq, hflags, readCode_decimal _ hopCode]
  simp only [bind, Except.bind, LockOp.ofCode?_code, readCode_decimal _ hirqCode,
    IrqSync.ofCode?_code, readFlags_decimal]

/-- The number of addresses that an operation names. -/
def sizeOf : Operation → UInt64
  | .alloc size => size
  | .access _ size => size
  | _ => 0

theorem readDecimal64_size (e : Event) :
    readDecimal64 "size" (printRow e).size = .ok (sizeOf e.operation) := by
  unfold printRow sizeOf
  cases e.operation with
  | alloc size => exact readDecimal64_decimal "size" size
  | access kind size => exact readDecimal64_decimal "size" size
  | free => rfl
  | acquire side irqSync flags => rfl
  | release side flags => rfl

theorem readOperation_printRow (e : Event) :
    readOperation (printRow e) (sizeOf e.operation) = .ok e.operation := by
  obtain ⟨time, ctx, op, address, typeName, site, preemptCount⟩ := e
  cases op with
  | alloc size => rfl
  | free => rfl
  | access kind size => cases kind <;> rfl
  | acquire side irqSync flags =>
    exact readLockOperation_of_columns (.acquire side) irqSync rfl rfl rfl
  | release side flags =>
    exact readLockOperation_of_columns (.release side) .none rfl rfl rfl

theorem readRow_printRow {delimiter : Char} {e : Event} (h : Writable delimiter e) :
    readRow (printRow e) = .ok e := by
  have htype : readText (printRow e).typeName = e.typeName :=
    readText_printText (h e.typeName (by simp [Event.texts]))
  have hfile : readText (printRow e).file = e.site.file :=
    readText_printText (h e.site.file (by simp [Event.texts]))
  have hfunction : readText (printRow e).function = e.site.function :=
    readText_printText (h e.site.function (by simp [Event.texts]))
  have htime : readDecimal64 "ts" (printRow e).time = .ok e.time :=
    readDecimal64_decimal "ts" e.time
  have hctx : readCtx (printRow e).ctx = .ok e.ctx := readCtx_signed e.ctx
  have haddress : readHex64 "ptr" (printRow e).address = .ok e.address :=
    readHex64_hexadecimal "ptr" e.address
  have hline : readLineNumber (printRow e).line = .ok e.site.line :=
    readLineNumber_decimal e.site.line
  have hpreempt : readHex64 "preempt_count" (printRow e).preemptCount = .ok e.preemptCount :=
    readHex64_hexadecimal "preempt_count" e.preemptCount
  unfold readRow
  simp only [htime, hctx, haddress, readDecimal64_size, readOperation_printRow, hline, hpreempt,
    bind, Except.bind, htype, hfile, hfunction]

section Words

variable (e : Event)

theorem isWord_action : IsWord (printRow e).action := by
  refine ⟨List.cons_ne_nil _ _, ?_⟩
  intro c hc
  rw [List.mem_singleton.mp hc]
  rcases e.operation with _ | _ | _ | _ | ⟨kind, _⟩
  case access => cases kind <;> rfl
  all_goals rfl

theorem isWord_size : IsWord (printRow e).size := by
  unfold printRow
  cases e.operation with
  | alloc size => exact isWord_decimal size.toNat
  | access kind size => exact isWord_decimal size.toNat
  | _ => exact isWord_missing

theorem isWord_lockOp : IsWord (printRow e).lockOp := by
  unfold printRow
  cases e.operation with
  | acquire side irqSync flags => exact isWord_decimal (LockOp.acquire side).code
  | release side flags => exact isWord_decimal (LockOp.release side).code
  | _ => exact isWord_missing

theorem isWord_irqSync : IsWord (printRow e).irqSync := by
  unfold printRow
  cases e.operation with
  | acquire side irqSync flags => exact isWord_decimal irqSync.code
  | release side flags => exact isWord_decimal IrqSync.none.code
  | _ => exact isWord_missing

theorem isWord_flags : IsWord (printRow e).flags := by
  unfold printRow
  cases e.operation with
  | acquire side irqSync flags => exact isWord_decimal flags.toNat
  | release side flags => exact isWord_decimal flags.toNat
  | _ => exact isWord_missing

end Words

theorem inColumn_printRow {delimiter : Char} (hd : Separates delimiter) {e : Event}
    (h : Writable delimiter e) : ∀ cs ∈ (printRow e).columns, InColumn delimiter cs := by
  have hword : ∀ {cs}, IsWord cs → InColumn delimiter cs := fun h => h.inColumn hd
  have htext : ∀ s ∈ e.texts, InColumn delimiter (printText s) := fun s hs =>
    inColumn_printText hd (h s hs)
  simp only [Row.columns, List.forall_mem_cons, List.not_mem_nil, false_imp_iff, implies_true,
    and_true]
  exact ⟨hword (isWord_decimal _), inColumn_signed hd _, hword (isWord_action e),
    hword (isWord_hexadecimal _), hword (isWord_size e), htext e.typeName (by simp [Event.texts]),
    hword isWord_missing, hword (isWord_lockOp e), htext e.site.file (by simp [Event.texts]),
    hword (isWord_decimal _), htext e.site.function (by simp [Event.texts]),
    hword (isWord_hexadecimal _), hword (isWord_irqSync e), hword (isWord_flags e)⟩

/-! ### Lines -/

/-- What a joined line is made of. -/
theorem mem_joinColumns {delimiter c : Char} {columns : List (List Char)}
    (h : c ∈ Text.joinColumns delimiter columns) : c = delimiter ∨ ∃ cs ∈ columns, c ∈ cs := by
  unfold Text.joinColumns at h
  induction columns with
  | nil => cases h
  | cons cs rest ih =>
    cases rest with
    | nil =>
      rw [List.intercalate_singleton] at h
      exact Or.inr ⟨cs, List.mem_cons_self, h⟩
    | cons next rest =>
      rw [List.intercalate_cons_cons] at h
      rcases List.mem_append.mp h with h | h
      · rcases List.mem_append.mp h with h | h
        · exact Or.inr ⟨cs, List.mem_cons_self, h⟩
        · exact Or.inl (List.mem_singleton.mp h)
      · rcases ih h with h | ⟨ds, hds, h⟩
        · exact Or.inl h
        · exact Or.inr ⟨ds, List.mem_cons_of_mem _ hds, h⟩

/-- A joined line ends as its last column does. -/
theorem getLast?_joinColumns (delimiter : Char) (front : List (List Char)) {last : List Char}
    (h : last ≠ []) : (Text.joinColumns delimiter (front ++ [last])).getLast? = last.getLast? := by
  unfold Text.joinColumns
  induction front with
  | nil => rw [List.nil_append, List.intercalate_singleton]
  | cons cs front ih =>
    obtain ⟨next, rest, hrest⟩ : ∃ next rest, front ++ [last] = next :: rest :=
      List.exists_cons_of_ne_nil (by simp)
    have hend : ([delimiter].intercalate (front ++ [last])).getLast? ≠ none := by
      rw [ih]
      simpa using h
    rw [List.cons_append, hrest, List.intercalate_cons_cons, ← hrest, List.getLast?_append]
    obtain ⟨c, hc⟩ := Option.ne_none_iff_exists'.mp hend
    rw [← ih, hc]
    rfl

/-- A line that can be written: it keeps to itself. -/
def Line (cs : List Char) : Prop := '\n' ∉ cs ∧ cs.getLast? ≠ some '\r'

theorem IsWord.getLast?_ne {cs : List Char} (h : IsWord cs) : cs.getLast? ≠ some '\r' := by
  intro hlast
  exact h.not_mem (c := '\r') (by decide) (List.mem_of_getLast? hlast)

theorem line_joinColumns {delimiter : Char} (hd : Separates delimiter) (front : List (List Char))
    {last : List Char} (hword : IsWord last)
    (hfree : ∀ cs ∈ front ++ [last], '\n' ∉ cs) :
    Line (Text.joinColumns delimiter (front ++ [last])) := by
  constructor
  · intro hmem
    rcases mem_joinColumns hmem with heq | ⟨cs, hcs, hmem⟩
    · exact hd.2.2 heq.symm
    · exact hfree cs hcs hmem
  · rw [getLast?_joinColumns delimiter front hword.nonempty]
    exact hword.getLast?_ne

section Line

variable {delimiter : Char} (hd : Separates delimiter)

include hd

theorem line_header : Line (header delimiter) := by
  have hword : IsWord "flags".toList := .of_all (by decide) (by decide)
  exact line_joinColumns hd (columnNames.map String.toList).dropLast hword (by decide)

theorem line_printLine {e : Event} (h : Writable delimiter e) : Line (printLine delimiter e) :=
  line_joinColumns hd (printRow e).columns.dropLast (isWord_flags e)
    fun cs hcs => (inColumn_printRow hd h cs hcs).lineFeed

theorem readLine_printLine {e : Event} (h : Writable delimiter e) :
    readLine delimiter (printLine delimiter e) = .ok e := by
  have hsplit : Text.splitColumns delimiter (printLine delimiter e) = (printRow e).columns := by
    apply List.splitOn_intercalate
    · exact fun cs hcs => (inColumn_printRow hd h cs hcs).delimiter
    · exact List.cons_ne_nil _ _
  unfold readLine
  simp only [hsplit, Row.ofColumns?_columns]
  exact readRow_printRow h

end Line

theorem dropReturn_eq_self {cs : List Char} (h : Line cs) : dropReturn cs = cs := if_neg h.2

/-- The header stands for nothing. -/
theorem readNumbered_header {delimiter : Char} (hd : Separates delimiter) :
    readNumbered delimiter 1 (Bytes.ofChars (header delimiter)) = none := by
  unfold readNumbered
  simp only [Bytes.chars?_ofChars, dropReturn_eq_self (line_header hd)]
  exact if_pos ⟨trivial, rfl⟩

theorem readNumbered_printLine {delimiter : Char} (hd : Separates delimiter) {e : Event}
    (h : Writable delimiter e) {number : Nat} (hnumber : number ≠ 1) :
    readNumbered delimiter number (Bytes.ofChars (printLine delimiter e)) = some (.ok e) := by
  have hnonempty : (printLine delimiter e).isEmpty = false := by
    have hlast := getLast?_joinColumns delimiter (printRow e).columns.dropLast
      (isWord_flags e).nonempty
    cases hline : printLine delimiter e with
    | cons c cs => rfl
    | nil =>
      have hempty : Text.joinColumns delimiter
          ((printRow e).columns.dropLast ++ [(printRow e).flags]) = [] := hline
      rw [hempty] at hlast
      exact absurd (List.getLast?_eq_none_iff.mp hlast.symm) (isWord_flags e).nonempty
  unfold readNumbered
  simp only [Bytes.chars?_ofChars, dropReturn_eq_self (line_printLine hd h),
    readLine_printLine hd h, hnonempty, hnumber, false_and, if_false, Bool.false_eq_true]
  rfl

/-! ### Texts -/

section Print

variable {delimiter : Char} (hd : Separates delimiter) {es : List Event}
  (h : ∀ e ∈ es, Writable delimiter e)

include hd h

theorem lines_print :
    (Bytes.ofString (print delimiter es)).lines =
      Bytes.ofChars (header delimiter) ::
        es.map fun e => Bytes.ofChars (printLine delimiter e) := by
  have hlines : ∀ l ∈ header delimiter :: es.map (printLine delimiter), Line l := by
    intro l hl
    rcases List.mem_cons.mp hl with rfl | hl
    · exact line_header hd
    · obtain ⟨e, he, rfl⟩ := List.mem_map.mp hl
      exact line_printLine hd (h e he)
  unfold print
  rw [Bytes.lines_ofLines hlines, List.map_cons, List.map_map]
  rfl

/-- The events that were printed are read, from the line with any number but the first on. -/
theorem readLines_printLines {n : Nat} (hn : 1 < n) :
    readLines delimiter n (es.map fun e => Bytes.ofChars (printLine delimiter e)) =
      es.map .ok := by
  induction es generalizing n with
  | nil => rfl
  | cons e es ih =>
    have hread := readNumbered_printLine hd (h e List.mem_cons_self) (Nat.ne_of_gt hn)
    have hrest := ih (fun e he => h e (List.mem_cons_of_mem _ he)) (Nat.lt_succ_of_lt hn)
    unfold readLines at hrest ⊢
    rw [List.map_cons, List.zipIdx_cons, List.filterMap_cons]
    simp only [hread, hrest, List.map_cons]

theorem read_print : read delimiter (Bytes.ofString (print delimiter es)) = es.map .ok := by
  have hrest := readLines_printLines hd h (n := 2) (by decide)
  unfold read
  rw [lines_print hd h]
  unfold readLines at hrest ⊢
  rw [List.zipIdx_cons, List.filterMap_cons]
  simp only [readNumbered_header hd]
  exact hrest

theorem warnings_print : warnings (Bytes.ofString (print delimiter es)).lines = [] := by
  have hheader : lacksHeader (Bytes.ofString (print delimiter es)).lines = false := by
    rw [lines_print hd h]
    unfold lacksHeader
    simp only [Bytes.chars?_ofChars, dropReturn_eq_self (line_header hd), Option.any_some]
    rfl
  unfold warnings
  rw [hheader]
  rfl

end Print

/-! ### What was read can be written -/

theorem fits_readText {delimiter : Char} {cs : List Char} (h : InColumn delimiter cs) :
    Fits delimiter (readText cs) := by
  unfold readText
  split
  · exact ⟨by simp, by simp, by decide⟩
  · next hne =>
    refine ⟨?_, ?_, ?_⟩
    · rw [String.toList_ofList]
      exact h.delimiter
    · rw [String.toList_ofList]
      exact h.lineFeed
    · intro heq
      apply hne
      have hlist := congrArg String.toList heq
      rwa [String.toList_ofList] at hlist

/-- A step that leads to a result has one itself. -/
theorem bind_eq_ok {ε α β : Type} {x : Except ε α} {f : α → Except ε β} {b : β}
    (h : x >>= f = .ok b) : ∃ a, x = .ok a ∧ f a = .ok b := by
  cases x with
  | error cause => cases h
  | ok a => exact ⟨a, rfl, h⟩

theorem texts_of_readRow {r : Row} {e : Event} (h : readRow r = .ok e) :
    e.texts = [readText r.typeName, readText r.file, readText r.function] := by
  unfold readRow at h
  obtain ⟨time, _, h⟩ := bind_eq_ok h
  obtain ⟨ctx, _, h⟩ := bind_eq_ok h
  obtain ⟨address, _, h⟩ := bind_eq_ok h
  obtain ⟨size, _, h⟩ := bind_eq_ok h
  obtain ⟨operation, _, h⟩ := bind_eq_ok h
  obtain ⟨line, _, h⟩ := bind_eq_ok h
  obtain ⟨preemptCount, _, h⟩ := bind_eq_ok h
  cases h
  rfl

theorem writable_of_readLine {delimiter : Char} {line : List Char} {e : Event}
    (h : readLine delimiter line = .ok e) (hline : '\n' ∉ line) : Writable delimiter e := by
  unfold readLine at h
  simp only at h
  split at h
  · cases h
  · next r hrow =>
    have hcolumns := Row.eq_columns_of_ofColumns? hrow
    have hin : ∀ cs ∈ r.columns, InColumn delimiter cs := by
      intro cs hcs
      rw [← hcolumns] at hcs
      exact ⟨Text.not_mem_of_mem_splitOn hcs, fun hmem => hline (Text.mem_of_mem_splitOn hcs hmem)⟩
    intro s hs
    rw [texts_of_readRow h] at hs
    simp only [List.mem_cons, List.not_mem_nil, or_false] at hs
    rcases hs with rfl | rfl | rfl
    · exact fits_readText (hin r.typeName (by simp [Row.columns]))
    · exact fits_readText (hin r.file (by simp [Row.columns]))
    · exact fits_readText (hin r.function (by simp [Row.columns]))

theorem dropReturn_subset {cs : List Char} {c : Char} (h : c ∈ dropReturn cs) : c ∈ cs := by
  unfold dropReturn at h
  split at h
  · exact List.dropLast_subset _ h
  · exact h

theorem writable_of_readNumbered {delimiter : Char} {number : Nat} {line : Bytes} {e : Event}
    (h : readNumbered delimiter number line = some (.ok e)) (hline : Bytes.lineFeed ∉ line) :
    Writable delimiter e := by
  unfold readNumbered at h
  split at h
  · cases h
  · next text htext =>
    have hfree : '\n' ∉ dropReturn text := by
      intro hmem
      apply hline
      rw [Bytes.eq_ofChars_of_chars? htext]
      exact (Bytes.mem_ofChars_iff (c := '\n') (by decide)).mpr (dropReturn_subset hmem)
    simp only at h
    split at h
    · cases h
    · split at h
      · cases h
      · cases hread : readLine delimiter (dropReturn text) with
        | error fault =>
          rw [hread] at h
          cases h
        | ok e' =>
          rw [hread] at h
          cases h
          exact writable_of_readLine hread hfree

theorem writable_of_mem_readLines {delimiter : Char} {number : Nat} {lines : List Bytes} {e : Event}
    (hlines : ∀ line ∈ lines, Bytes.lineFeed ∉ line)
    (h : .ok e ∈ readLines delimiter number lines) : Writable delimiter e := by
  unfold readLines at h
  obtain ⟨⟨line, number⟩, hmem, hread⟩ := List.mem_filterMap.mp h
  exact writable_of_readNumbered hread (hlines line (List.fst_mem_of_mem_zipIdx hmem))

/-- Whatever the bytes are, the texts of an event that was read can be written. -/
theorem writable_of_mem_read {delimiter : Char} {bytes : Bytes} {e : Event}
    (h : .ok e ∈ read delimiter bytes) : Writable delimiter e :=
  writable_of_mem_readLines (fun _ => Bytes.lineFeed_not_mem_of_mem_lines) h

/-! ### The round trip -/

theorem printItems_map_ok (delimiter : Char) (es : List Event) :
    printItems delimiter (es.map (.ok : Event → Item)) = (print delimiter es, none) := by
  have hall : (es.map (.ok : Event → Item)).takeWhile (fun i => i.isOk) = es.map .ok := by
    apply List.takeWhile_eq_self_iff.mpr
    intro i hi
    obtain ⟨e, _, rfl⟩ := List.mem_map.mp hi
    rfl
  have hevents : (es.map (.ok : Event → Item)).filterMap Except.toOption = es := by
    rw [List.filterMap_map]
    exact List.filterMap_some
  unfold printItems
  simp only [hall, hevents, List.drop_length, List.head?_nil, Option.bind_none]

/-- Items without an error are the items of events. -/
theorem exists_map_ok {items : List Item}
    (h : ∀ i ∈ items, i.isOk = true) : ∃ es : List Event, items = es.map .ok := by
  induction items with
  | nil => exact ⟨[], rfl⟩
  | cons i items ih =>
    obtain ⟨es, hes⟩ := ih fun i hi => h i (List.mem_cons_of_mem _ hi)
    have hi := h i List.mem_cons_self
    cases i with
    | error cause => cases hi
    | ok e => exact ⟨e :: es, by rw [hes, List.map_cons]⟩

/-- What is printed is read back, event by event, without an error and without a warning, if the
    delimiter separates and the texts keep to their columns. The texts that were read from a trace
    do so, whatever its bytes are; so a trace without errors can be printed and read again. -/
theorem read_printItems {delimiter : Char} (hd : Separates delimiter) :
    (∀ es : List Event, (∀ e ∈ es, Writable delimiter e) →
      ∃ text, printItems delimiter (es.map (.ok : Event → Item)) = (text, none) ∧
        read delimiter (Bytes.ofString text) = es.map .ok ∧
        warnings (Bytes.ofString text).lines = []) ∧
    (∀ (bytes : Bytes) (e : Event), .ok e ∈ read delimiter bytes → Writable delimiter e) ∧
    ∀ bytes : Bytes, (∀ i ∈ read delimiter bytes, i.isOk = true) →
      ∃ text, printItems delimiter (read delimiter bytes) = (text, none) ∧
        read delimiter (Bytes.ofString text) = read delimiter bytes := by
  refine ⟨?_, fun bytes e h => writable_of_mem_read h, ?_⟩
  · intro es hes
    exact ⟨_, printItems_map_ok delimiter es, read_print hd hes, warnings_print hd hes⟩
  · intro bytes hok
    obtain ⟨es, hes⟩ := exists_map_ok hok
    have hwritable : ∀ e ∈ es, Writable delimiter e := by
      intro e he
      have hmem : .ok e ∈ read delimiter bytes := by
        rw [hes]
        exact List.mem_map_of_mem he
      exact writable_of_mem_read hmem
    rw [hes]
    exact ⟨_, printItems_map_ok delimiter es, read_print hd hwritable⟩

/-- An event of each operation, with words up to their ends. -/
def eachOperation : List Event :=
  [⟨1, 3, .alloc 64, 0x200, "inode", Site.unknown, 0⟩,
    ⟨2, 3, .acquire .writer .bh 1, 0x100, "spinlock_t", ⟨"fs/inode.c", 12, "iget"⟩, 0x80000001⟩,
    ⟨3, -2, .access .read 8, 0x208, "", ⟨"", 4294967295, ""⟩, 0⟩,
    ⟨4, 3, .access .write 4, 0x20c, "", ⟨"fs/inode.c", 13, "iget"⟩, 0⟩,
    ⟨5, 3, .release .writer 2, 0x100, "spinlock_t", Site.unknown, 0⟩,
    ⟨18446744073709551615, -9223372036854775808, .free, 0x200, "", Site.unknown, 0⟩]

/-- A trace that was not printed here: it has an empty line, a marked address, no texts and a
    carriage return at the end. -/
def foreignText : String :=
  "ts;ctx\n\n7;-1;f;0X1F;NULL;;NULL;NULL;fs/inode.c;3;NULL;0;NULL;NULL\r\n"

theorem read_printItems_eachOperation :
    (∃ text, printItems ';' (eachOperation.map (.ok : Event → Item)) = (text, none) ∧
      read ';' (Bytes.ofString text) = eachOperation.map .ok ∧
      warnings (Bytes.ofString text).lines = []) ∧
    ∃ e : Event, .ok e ∈ read ';' (Bytes.ofString foreignText) ∧ Writable ';' e ∧
      ∃ text, printItems ';' (read ';' (Bytes.ofString foreignText)) = (text, none) ∧
        read ';' (Bytes.ofString text) = read ';' (Bytes.ofString foreignText) := by
  obtain ⟨hprinted, hread, hagain⟩ := read_printItems (show Separates ';' by decide)
  have hforeign : .ok ⟨7, -1, .free, 0x1f, "", ⟨"fs/inode.c", 3, ""⟩, 0⟩ ∈
      read ';' (Bytes.ofString foreignText) := by decide +kernel
  exact ⟨hprinted eachOperation (by decide +kernel), _, hforeign, hread _ _ hforeign,
    hagain (Bytes.ofString foreignText) (by decide +kernel)⟩

end Trace

end LockTrace
