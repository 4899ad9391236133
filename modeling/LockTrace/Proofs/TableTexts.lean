import LockTrace.Proofs.RoundTrip
import LockTrace.Table

/-!
# Tables read back

Nothing is quoted in a table. Its lines can be cut into columns all the same, and they tell which
records were written, if the delimiter is no character of a number or of a name that stands for
something (`Table.Separates`), and the texts of the records keep to their columns
(`Record.KeepsTo`). The one mark in a table is the one for a missing value, which no number can be
taken for; the name of a variable could.

The way back has the same steps as the way there: from a column to what it stands for, from the
columns of a row to its record (`Record.eq_of_columns`), from a line to its columns, and from the
text to its lines (`Table.print_eq_iff`).
-/

namespace LockTrace

open Numeral (decimal)
open Trace (InColumn)

attribute [ext] Site Acquisition DataTypeRow AllocationRow AccessRow LockRow HeldRow TxnRow

/-! ### Lists -/

/-- Two lists are the same if they become the same and each element tells what it came from. -/
theorem eq_of_map_eq {α β : Type} {f : α → β} {as bs : List α} (h : as.map f = bs.map f)
    (hinj : ∀ a ∈ as, ∀ b ∈ bs, f a = f b → a = b) : as = bs := by
  induction as generalizing bs with
  | nil => exact (List.map_eq_nil_iff.mp h.symm).symm
  | cons a as ih =>
    cases bs with
    | nil => cases h
    | cons b bs =>
      obtain ⟨hhead, htail⟩ := List.cons.inj h
      rw [hinj a List.mem_cons_self b List.mem_cons_self hhead, ih htail]
      intro a' ha' b' hb'
      exact hinj a' (List.mem_cons_of_mem _ ha') b' (List.mem_cons_of_mem _ hb')

/-! ### The texts of records -/

namespace Record

/-- The texts that a record takes over from a trace. -/
def traceTexts : Record → List String
  | dataType r => [r.name]
  | access r => [r.site.file, r.site.function]
  | lock r => [r.label]
  | held r => [r.taken.site.file, r.taken.site.function]
  | _ => []

/-- The name of the variable that is a lock. -/
def varName? : Record → Option String
  | lock r => r.varName
  | _ => none

def texts (r : Record) : List String := r.traceTexts ++ r.varName?.toList

/-- The texts of a record keep to their columns, and its variable is not taken for a missing
    one. -/
structure KeepsTo (delimiter : Char) (r : Record) : Prop where
  texts : ∀ s ∈ r.texts, InColumn delimiter s.toList
  varName : r.varName? ≠ some Table.missing

/-- The table into which a record belongs. -/
def table? (r : Record) : Option Table := (Table.columns? r).map Prod.fst

/-- The columns of a record in its table. -/
def columns (r : Record) : List String := ((Table.columns? r).map Prod.snd).getD []

end Record

namespace Table

/-! ### What can stand between columns -/

/-- A character that can stand between two columns: no ASCII letter or digit, no underscore, no
    backslash and no line feed. -/
def Separates (delimiter : Char) : Prop :=
  delimiter.isAlphanum = false ∧ delimiter ≠ '_' ∧ delimiter ≠ '\\' ∧ delimiter ≠ '\n'

instance (delimiter : Char) : Decidable (Separates delimiter) := inferInstanceAs (Decidable (_ ∧ _))

/-- A text of letters, digits, underscores and backslashes, as tables hold them by themselves. -/
def IsPlain (s : String) : Prop := ∀ c ∈ s.toList, c.isAlphanum = true ∨ c = '_' ∨ c = '\\'

instance (s : String) : Decidable (IsPlain s) := List.decidableBAll _ _

theorem IsPlain.inColumn {delimiter : Char} (hd : Separates delimiter) {s : String}
    (h : IsPlain s) : InColumn delimiter s.toList := by
  obtain ⟨halphanum, hscore, hslash, _⟩ := hd
  constructor
  · intro hmem
    rcases h delimiter hmem with hc | hc | hc
    · rw [halphanum] at hc
      cases hc
    · exact hscore hc
    · exact hslash hc
  · intro hmem
    exact absurd (h '\n' hmem) (by decide)

@[simp] theorem isPlain_decimal (n : Nat) : IsPlain (decimal n) :=
  fun c hc => Or.inl ((Trace.isWord_decimal n).alphanum c hc)

@[simp] theorem isPlain_missing : IsPlain missing := by decide

@[simp] theorem optional_none : optional none = missing := rfl

@[simp] theorem optional_some (s : String) : optional (some s) = s := rfl

@[simp] theorem isPlain_optional {α : Type} {f : α → String} (hf : ∀ a, IsPlain (f a))
    (value : Option α) : IsPlain (optional (value.map f)) := by
  cases value with
  | none => exact isPlain_missing
  | some a => exact hf a

@[simp] theorem isPlain_kind (kind : AccessKind) : IsPlain (String.singleton kind.letter) := by
  cases kind <;> decide

@[simp] theorem isPlain_side (side : Side) : IsPlain (String.singleton side.letter) := by
  cases side <;> decide

@[simp] theorem isPlain_irqSync (mode : IrqSync) : IsPlain mode.name := by
  cases mode <;> decide

theorem isPlain_of_mem_columnNames {t : Table} : ∀ name ∈ t.columnNames, IsPlain name := by
  cases t <;> decide

/-- A column holds a text of the record or a plain text. -/
theorem isPlain_or_mem_texts {r : Record} : ∀ s ∈ r.columns, IsPlain s ∨ s ∈ r.texts := by
  unfold Record.texts
  cases r with
  | lock row =>
    cases hname : row.varName <;>
      simp [Record.columns, Record.traceTexts, Record.varName?, columns?, hname]
  | _ => simp [Record.columns, Record.traceTexts, Record.varName?, columns?]

theorem inColumn_columns {delimiter : Char} (hd : Separates delimiter) {r : Record}
    (h : r.KeepsTo delimiter) : ∀ s ∈ r.columns, InColumn delimiter s.toList := by
  intro s hs
  rcases isPlain_or_mem_texts s hs with hplain | htext
  · exact hplain.inColumn hd
  · exact h.texts s htext

theorem length_columns {t : Table} {r : Record} (h : r.table? = some t) :
    r.columns.length = t.columnNames.length := by
  cases r with
  | flush => cases h
  | _ =>
    cases h
    rfl

theorem columns_ne_nil {t : Table} {r : Record} (h : r.table? = some t) : r.columns ≠ [] := by
  intro hnil
  have hlength := length_columns h
  rw [hnil] at hlength
  cases t <;> cases hlength

/-! ### A record by its columns -/

theorem decimal_injective : Function.Injective decimal := by
  intro m n h
  have hdigits : Nat.toDigits 10 m = Nat.toDigits 10 n := String.ofList_injective h
  have hvalue := congrArg (Nat.ofDigitChars 10 · 0) hdigits
  simpa only [Nat.ofDigitChars_toDigits (by decide : 1 < 10) (by decide : 10 ≤ 10)] using hvalue

theorem decimal_ne_missing (n : Nat) : decimal n ≠ missing := by
  intro h
  have hslash : '\\' ∈ (decimal n).toList := by
    rw [h]
    decide
  exact (Trace.isWord_decimal n).not_mem (by decide) hslash

/-- No value is taken for a missing one. -/
theorem optional_injective {a b : Option String} (ha : a ≠ some missing) (hb : b ≠ some missing)
    (h : optional a = optional b) : a = b := by
  cases a with
  | none =>
    cases b with
    | none => rfl
    | some s => exact absurd (congrArg some h).symm hb
  | some s =>
    cases b with
    | none => exact absurd (congrArg some h) ha
    | some s' => exact congrArg some h

theorem optional_map_injective {α : Type} {f : α → String} (hf : Function.Injective f)
    (hpresent : ∀ a, f a ≠ missing) :
    Function.Injective fun value : Option α => optional (value.map f) := by
  have hne : ∀ value : Option α, value.map f ≠ some missing := by
    intro value hmissing
    obtain ⟨a, _, ha⟩ := Option.map_eq_some_iff.mp hmissing
    exact hpresent a ha
  intro a b h
  exact Option.map_injective hf (optional_injective (hne a) (hne b) h)

@[simp] theorem decimal_inj {m n : Nat} : decimal m = decimal n ↔ m = n :=
  decimal_injective.eq_iff

@[simp] theorem optional_decimal_inj {a b : Option Nat} :
    optional (a.map decimal) = optional (b.map decimal) ↔ a = b :=
  (optional_map_injective decimal_injective decimal_ne_missing).eq_iff

@[simp] theorem optional_word_inj {a b : Option UInt64} :
    optional (a.map fun w => decimal w.toNat) = optional (b.map fun w => decimal w.toNat) ↔
      a = b := by
  have hword : Function.Injective fun w : UInt64 => decimal w.toNat :=
    fun _ _ h => UInt64.toNat_inj.mp (decimal_injective h)
  exact (optional_map_injective hword fun w => decimal_ne_missing w.toNat).eq_iff

@[simp] theorem kind_inj {k k' : AccessKind} : k.letter = k'.letter ↔ k = k' := by
  cases k <;> cases k' <;> decide

@[simp] theorem side_inj {s s' : Side} : s.letter = s'.letter ↔ s = s' := by
  cases s <;> cases s' <;> decide

@[simp] theorem irqSync_inj {m m' : IrqSync} : m.name = m'.name ↔ m = m' := by
  cases m <;> cases m' <;> decide

end Table

/-- The columns tell the record, where it is known to which table they belong. -/
theorem Record.eq_of_columns {t : Table} {r r' : Record} (hr : r.table? = some t)
    (hr' : r'.table? = some t) (hname : r.varName? ≠ some Table.missing)
    (hname' : r'.varName? ≠ some Table.missing) (h : r.columns = r'.columns) : r = r' := by
  cases r with
  | flush => cases hr
  | dataType row =>
    cases hr
    cases r' with
    | dataType row' =>
      simpa [columns, Table.columns?, DataTypeRow.ext_iff] using h
    | _ => cases hr'
  | allocation row =>
    cases hr
    cases r' with
    | allocation row' =>
      simpa [columns, Table.columns?, AllocationRow.ext_iff, UInt64.toNat_inj] using h
    | _ => cases hr'
  | access row =>
    cases hr
    cases r' with
    | access row' =>
      simpa [columns, Table.columns?, AccessRow.ext_iff, Site.ext_iff, UInt64.toNat_inj,
        UInt32.toNat_inj] using h
    | _ => cases hr'
  | lock row =>
    cases hr
    cases r' with
    | lock row' =>
      have hsame : Table.optional row.varName = Table.optional row'.varName ↔
          row.varName = row'.varName :=
        ⟨Table.optional_injective hname hname', congrArg _⟩
      simpa [columns, Table.columns?, LockRow.ext_iff, hsame, UInt64.toNat_inj,
        UInt32.toNat_inj] using h
    | _ => cases hr'
  | held row =>
    cases hr
    cases r' with
    | held row' =>
      simpa [columns, Table.columns?, HeldRow.ext_iff, Acquisition.ext_iff, Site.ext_iff,
        UInt64.toNat_inj, UInt32.toNat_inj, and_assoc] using h
    | _ => cases hr'
  | txn row =>
    cases hr
    cases r' with
    | txn row' =>
      simpa [columns, Table.columns?, TxnRow.ext_iff, UInt64.toNat_inj] using h
    | _ => cases hr'

/-! ### Lines -/

namespace Table

section Line

variable {delimiter : Char} (hd : Separates delimiter) {columns : List String}
  (hcolumns : ∀ s ∈ columns, InColumn delimiter s.toList)

include hcolumns

omit hd in
theorem splitColumns_line (hne : columns ≠ []) :
    Text.splitColumns delimiter (line delimiter columns) = columns.map String.toList := by
  apply List.splitOn_intercalate
  · intro cs hcs
    obtain ⟨s, hs, rfl⟩ := List.mem_map.mp hcs
    exact (hcolumns s hs).delimiter
  · simpa using hne

include hd

theorem lineFeed_not_mem_line : '\n' ∉ line delimiter columns := by
  intro hmem
  rcases Trace.mem_joinColumns hmem with heq | ⟨cs, hcs, hmem⟩
  · exact hd.2.2.2 heq.symm
  · obtain ⟨s, hs, rfl⟩ := List.mem_map.mp hcs
    exact (hcolumns s hs).lineFeed hmem

end Line

/-! ### Texts -/

/-- The records that belong into a table, in order. -/
def kept (t : Table) (records : List Record) : List Record :=
  records.filter fun r => decide (r.table? = some t)

theorem rows_eq (t : Table) (records : List Record) :
    t.rows records = (t.kept records).map Record.columns := by
  unfold rows kept
  induction records with
  | nil => rfl
  | cons r rs ih =>
    rw [List.filterMap_cons, List.filter_cons]
    cases hcolumns : columns? r with
    | none => simpa [Record.table?, hcolumns] using ih
    | some entry =>
      by_cases ht : entry.1 = t <;> simp [Record.table?, Record.columns, hcolumns, ht, ih]

theorem table?_of_mem_kept {t : Table} {records : List Record} {r : Record}
    (h : r ∈ t.kept records) : r ∈ records ∧ r.table? = some t := by
  simpa [kept] using h

/-- The text of a table has its header and a line for each of its records, in order, and each
    line is cut into as many columns as the header names. -/
structure Tells (t : Table) (delimiter : Char) (records : List Record) : Prop where
  lines : (t.print delimiter records).toList.splitOn '\n' =
    line delimiter t.columnNames :: (t.kept records).map (fun r => line delimiter r.columns) ++ [[]]
  header : Text.splitColumns delimiter (line delimiter t.columnNames) =
    t.columnNames.map String.toList
  columns : ∀ r ∈ t.kept records,
    Text.splitColumns delimiter (line delimiter r.columns) = r.columns.map String.toList
  width : ∀ r ∈ t.kept records, r.columns.length = t.columnNames.length

section Print

variable {delimiter : Char} (hd : Separates delimiter) {t : Table} {records records' : List Record}

include hd

theorem tells_print (h : ∀ r ∈ records, r.KeepsTo delimiter) : t.Tells delimiter records where
  lines := by
    unfold print Text.ofLines Table.lines
    rw [String.toList_ofList, rows_eq, List.map_cons, List.map_map]
    apply Text.splitOn_flatMap_append
    intro l hl
    rcases List.mem_cons.mp hl with rfl | hl
    · exact lineFeed_not_mem_line hd fun s hs => (isPlain_of_mem_columnNames s hs).inColumn hd
    · obtain ⟨r, hr, rfl⟩ := List.mem_map.mp hl
      exact lineFeed_not_mem_line hd (inColumn_columns hd (h r (table?_of_mem_kept hr).1))
  header := by
    apply splitColumns_line fun s hs => (isPlain_of_mem_columnNames s hs).inColumn hd
    cases t <;> decide
  columns r hr := by
    obtain ⟨hmem, htable⟩ := table?_of_mem_kept hr
    exact splitColumns_line (inColumn_columns hd (h r hmem)) (columns_ne_nil htable)
  width r hr := length_columns (table?_of_mem_kept hr).2

/-- The columns of a line tell its record. -/
theorem eq_of_splitColumns {r r' : Record} (htable : r.table? = some t)
    (htable' : r'.table? = some t) (h : r.KeepsTo delimiter) (h' : r'.KeepsTo delimiter)
    (hsplit : Text.splitColumns delimiter (line delimiter r.columns) =
      Text.splitColumns delimiter (line delimiter r'.columns)) : r = r' := by
  rw [splitColumns_line (inColumn_columns hd h) (columns_ne_nil htable),
    splitColumns_line (inColumn_columns hd h') (columns_ne_nil htable')] at hsplit
  have hcolumns := (List.map_inj_right fun _ _ h => String.toList_injective h).mp hsplit
  exact Record.eq_of_columns htable htable' h.varName h'.varName hcolumns

theorem print_eq_iff (h : ∀ r ∈ records, r.KeepsTo delimiter)
    (h' : ∀ r ∈ records', r.KeepsTo delimiter) :
    t.print delimiter records = t.print delimiter records' ↔ t.kept records = t.kept records' := by
  constructor
  · intro heq
    have hlines := (tells_print (t := t) hd h).lines
    rw [heq, (tells_print hd h').lines] at hlines
    have hmap := List.tail_eq_of_cons_eq (List.append_cancel_right hlines)
    refine eq_of_map_eq hmap.symm ?_
    intro r hr r' hr' hline
    obtain ⟨hmem, htable⟩ := table?_of_mem_kept hr
    obtain ⟨hmem', htable'⟩ := table?_of_mem_kept hr'
    exact eq_of_splitColumns hd htable htable' (h r hmem) (h' r' hmem') (congrArg _ hline)
  · intro heq
    unfold print Table.lines
    rw [rows_eq, rows_eq, heq]

end Print

end Table

end LockTrace
