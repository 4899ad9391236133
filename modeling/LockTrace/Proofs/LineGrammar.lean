import LockTrace.Proofs.NumeralGrammar
import LockTrace.Proofs.RoundTrip

/-!
# Which lines are events

The grammar of a line, told without its reader. A line is laid out as a row if it is the fourteen
columns with a delimiter between two of them, and no column holds one (`Row.LaidOut`). A row tells
an event if each column holds the word for a missing value or a text of its own kind, with the
event's value (`Row.Tells`). The columns of locks are asked on lock operations only, while every
row has to have a size that is one. The reader accepts these lines and no others, and what stands
in a column that is not asked does not matter (`readLine_tells`).
-/

namespace LockTrace.Trace

open Numeral (Spells Unsigned Signed)

/-! ### The kinds of columns -/

/-- A column holds a text of its kind, which stands for the value, or it has no value. -/
def Given {α : Type} (kind : List Char → α → Prop) (absent : α) (cs : List Char) (a : α) : Prop :=
  cs = missing ∧ a = absent ∨ cs ≠ missing ∧ kind cs a

/-- A text with the mark of hexadecimal numbers in front. -/
def Marked (cs ds : List Char) : Prop := cs = '0' :: 'x' :: ds ∨ cs = '0' :: 'X' :: ds

/-- A hexadecimal number behind its mark. -/
def MarkedHex (cs : List Char) (n : Nat) : Prop := ∃ ds, Marked cs ds ∧ Unsigned 16 ds n

/-- A hexadecimal number, with a mark in front or without one. -/
def Hex (cs : List Char) (n : Nat) : Prop := Unsigned 16 cs n ∨ MarkedHex cs n

/-- A decimal number, or a hexadecimal one behind its mark. -/
def Flags (cs : List Char) (n : Nat) : Prop := Unsigned 10 cs n ∨ MarkedHex cs n

/-- A text that stands for itself. -/
def Verbatim (cs : List Char) (s : String) : Prop := s.toList = cs

/-! ### Rows -/

/-- The columns of locks stand for an operation on a lock. How interrupts are kept out has to be
    one of the modes also where an event does not keep it. -/
structure Row.TellsLock (r : Row) (op : LockOp) (irqSync : IrqSync) (flags : UInt32) :
    Prop where
  action : r.action = ['l']
  present : r.lockOp ≠ missing
  lockOp : Signed 10 r.lockOp op.code
  irqSync : Given (Signed 10) 0 r.irqSync irqSync.code
  flags : Given Flags 0 r.flags flags.toNat

/-- What a row has an event do. `size` is what its column of sizes holds. -/
inductive Row.Does (r : Row) (size : UInt64) : Operation → Prop
  | alloc (haction : r.action = ['a']) : r.Does size (.alloc size)
  | free (haction : r.action = ['f']) : r.Does size .free
  | read (haction : r.action = ['r']) : r.Does size (.access .read size)
  | write (haction : r.action = ['w']) : r.Does size (.access .write size)
  | acquire (side : Side) (irqSync : IrqSync) (flags : UInt32)
      (hlock : r.TellsLock (.acquire side) irqSync flags) :
      r.Does size (.acquire side irqSync flags)
  | release (side : Side) (irqSync : IrqSync) (flags : UInt32)
      (hlock : r.TellsLock (.release side) irqSync flags) :
      r.Does size (.release side flags)

/-- The columns of a row stand for an event. No event has a value that is too large for its
    field, so a row with such a value tells none. -/
structure Row.Tells (r : Row) (e : Event) : Prop where
  time : Given (Unsigned 10) 0 r.time e.time.toNat
  ctx : Given (Signed 10) 0 r.ctx e.ctx.toInt
  address : Given Hex 0 r.address e.address.toNat
  operation : ∃ size : UInt64, Given (Unsigned 10) 0 r.size size.toNat ∧ r.Does size e.operation
  typeName : Given Verbatim "" r.typeName e.typeName
  file : Given Verbatim "" r.file e.site.file
  line : Given (Unsigned 10) 0 r.line e.site.line.toNat
  function : Given Verbatim "" r.function e.site.function
  preemptCount : Given Hex 0 r.preemptCount e.preemptCount.toNat

/-- A line is the columns of a row with a delimiter between two of them. -/
structure Row.LaidOut (r : Row) (delimiter : Char) (line : List Char) : Prop where
  joined : line = Text.joinColumns delimiter r.columns
  apart : ∀ cs ∈ r.columns, delimiter ∉ cs

/-- Two rows hold the same in the columns that are asked. -/
structure Row.SameAsked (r r' : Row) : Prop where
  time : r'.time = r.time
  ctx : r'.ctx = r.ctx
  action : r'.action = r.action
  address : r'.address = r.address
  size : r'.size = r.size
  typeName : r'.typeName = r.typeName
  file : r'.file = r.file
  line : r'.line = r.line
  function : r'.function = r.function
  preemptCount : r'.preemptCount = r.preemptCount
  lock : r.action = ['l'] → r'.lockOp = r.lockOp ∧ r'.irqSync = r.irqSync ∧ r'.flags = r.flags

/-! ### Columns that are read -/

variable {column : String} {cs : List Char}

theorem bind_eq_ok_iff {ε α β : Type} {x : Except ε α} {f : α → Except ε β} {b : β} :
    x >>= f = .ok b ↔ ∃ a, x = .ok a ∧ f a = .ok b := by
  constructor
  · exact bind_eq_ok
  · rintro ⟨a, rfl, h⟩
    exact h

theorem readColumn_eq_ok_iff {α : Type} {absent a : α}
    {read : List Char → Except Numeral.Fault α} :
    readColumn column absent read cs = .ok a ↔ Given (fun cs a => read cs = .ok a) absent cs a := by
  unfold readColumn Given
  split
  · next h => simp [h, eq_comm]
  · next h =>
    cases hread : read cs with
    | error fault => simp [h, hread, Except.mapError]
    | ok b => simp [h, hread, Except.mapError]

/-- A reader of columns accepts what its reader of numbers does. -/
theorem given_iff {α β : Type} {read : List Char → Except Numeral.Fault α}
    {kind : List Char → β → Prop} {absent a : α} {value : α → β}
    (hvalue : ∀ a, value a = value absent → a = absent)
    (hread : ∀ {cs a}, read cs = .ok a ↔ kind cs (value a)) :
    readColumn column absent read cs = .ok a ↔ Given kind (value absent) cs (value a) := by
  rw [readColumn_eq_ok_iff]
  unfold Given
  simp only [hread]
  apply or_congr_left
  apply and_congr_right
  intro _
  constructor
  · rintro rfl
    rfl
  · exact hvalue a

theorem readDecimal64_eq_ok_iff {w : UInt64} :
    readDecimal64 column cs = .ok w ↔ Given (Unsigned 10) 0 cs w.toNat :=
  given_iff (fun _ h => UInt64.toNat_inj.mp h) (Numeral.readWord64_eq_ok_iff (by decide))

theorem readLineNumber_eq_ok_iff {w : UInt32} :
    readLineNumber cs = .ok w ↔ Given (Unsigned 10) 0 cs w.toNat :=
  given_iff (fun _ h => UInt32.toNat_inj.mp h) Numeral.readWord32_eq_ok_iff

theorem readCtx_eq_ok_iff {w : Int64} :
    readCtx cs = .ok w ↔ Given (Signed 10) 0 cs w.toInt :=
  given_iff (fun _ h => Int64.toInt_inj.mp h) Numeral.readInt64_eq_ok_iff

/-! ### Marks -/

section Marks

variable {ds : List Char} {n : Nat}

theorem dropHexMark_of_marked (h : Marked cs ds) : dropHexMark cs = ds := by
  rcases h with rfl | rfl
  · rfl
  · rfl

theorem dropHexMark_of_not_marked (h : ∀ ds, ¬ Marked cs ds) : dropHexMark cs = cs := by
  unfold dropHexMark
  split
  · exact absurd (Or.inl rfl) (h _)
  · exact absurd (Or.inr rfl) (h _)
  · rfl

theorem hasHexMark_of_marked (h : Marked cs ds) : hasHexMark cs = true := by
  rw [hasHexMark, dropHexMark_of_marked h, bne_iff_ne]
  intro heq
  have hlength := congrArg List.length heq
  rcases h with rfl | rfl
  · simp only [List.length_cons] at hlength
    omega
  · simp only [List.length_cons] at hlength
    omega

theorem hasHexMark_of_not_marked (h : ∀ ds, ¬ Marked cs ds) : hasHexMark cs = false := by
  rw [hasHexMark, dropHexMark_of_not_marked h, bne_self_eq_false]

theorem markedHex_iff (h : Marked cs ds) : MarkedHex cs n ↔ Unsigned 16 ds n := by
  constructor
  · rintro ⟨ds', hmarked, hvalue⟩
    rwa [← dropHexMark_of_marked h, dropHexMark_of_marked hmarked]
  · intro hvalue
    exact ⟨ds, h, hvalue⟩

theorem not_markedHex (h : ∀ ds, ¬ Marked cs ds) : ¬ MarkedHex cs n := by
  rintro ⟨ds, hmarked, _⟩
  exact h ds hmarked

/-- The letter of a mark is no digit, so a marked number is none without its mark. -/
theorem not_unsigned_of_marked {base : Nat} (h : Marked cs ds) : ¬ Unsigned base cs n := by
  have hx : ∀ ds' m, Spells base ds' m → 'x' ∉ ds' ∧ 'X' ∉ ds' := fun ds' m hspells =>
    ⟨hspells.not_mem (by decide), hspells.not_mem (by decide)⟩
  rintro (hspells | ⟨ds', rfl, _⟩)
  · rcases h with rfl | rfl
    · exact (hx _ _ hspells).1 (by simp)
    · exact (hx _ _ hspells).2 (by simp)
  · rcases h with h | h
    · cases h
    · cases h

theorem readWord64_dropHexMark_iff {cs : List Char} {w : UInt64} :
    Numeral.readWord64 16 (dropHexMark cs) = .ok w ↔ Hex cs w.toNat := by
  rw [Numeral.readWord64_eq_ok_iff (by decide), Hex]
  by_cases h : ∃ ds, Marked cs ds
  · obtain ⟨ds, h⟩ := h
    rw [dropHexMark_of_marked h, markedHex_iff h, or_iff_right (not_unsigned_of_marked h)]
  · rw [not_exists] at h
    rw [dropHexMark_of_not_marked h, or_iff_left (not_markedHex h)]

end Marks

theorem readHex64_eq_ok_iff {w : UInt64} :
    readHex64 column cs = .ok w ↔ Given Hex 0 cs w.toNat :=
  given_iff (fun _ h => UInt64.toNat_inj.mp h) readWord64_dropHexMark_iff

theorem given_congr {α : Type} {kind kind' : List Char → α → Prop} {absent a : α}
    (h : kind cs a ↔ kind' cs a) : Given kind absent cs a ↔ Given kind' absent cs a := by
  simp only [Given, h]

theorem readFlags_eq_ok_iff {w : UInt32} : readFlags cs = .ok w ↔ Given Flags 0 cs w.toNat := by
  have hread : ∀ n : UInt64,
      (if hasHexMark cs then readHex64 "flags" cs else readDecimal64 "flags" cs) = .ok n ↔
        Given Flags 0 cs n.toNat := by
    intro n
    by_cases h : ∃ ds, Marked cs ds
    · obtain ⟨ds, h⟩ := h
      rw [hasHexMark_of_marked h, if_pos rfl, readHex64_eq_ok_iff]
      apply given_congr
      rw [Hex, Flags, or_iff_right (not_unsigned_of_marked h),
        or_iff_right (not_unsigned_of_marked h)]
    · rw [not_exists] at h
      rw [hasHexMark_of_not_marked h, if_neg Bool.false_ne_true, readDecimal64_eq_ok_iff]
      apply given_congr
      rw [Flags, or_iff_left (not_markedHex h)]
  have hnarrow : readFlags cs =
      (if hasHexMark cs then readHex64 "flags" cs else readDecimal64 "flags" cs) >>= fun n =>
        if n.toNat < UInt32.size then .ok (UInt32.ofNat n.toNat) else .error .flagsTooLarge := by
    unfold readFlags
    split
    · rfl
    · rfl
  simp only [hnarrow, bind_eq_ok_iff, hread]
  constructor
  · rintro ⟨n, hn, hw⟩
    split at hw
    · next hlt =>
      cases hw
      rwa [UInt32.toNat_ofNat_of_lt' hlt]
    · cases hw
  · intro hw
    have hn : (UInt64.ofNat w.toNat).toNat = w.toNat :=
      UInt64.toNat_ofNat_of_lt' (Nat.lt_trans w.toNat_lt (by decide))
    refine ⟨UInt64.ofNat w.toNat, by rwa [hn], ?_⟩
    rw [hn, if_pos w.toNat_lt, UInt32.ofNat_toNat]

theorem readText_eq_iff {s : String} : readText cs = s ↔ Given Verbatim "" cs s := by
  unfold readText Given Verbatim
  split
  · next h =>
    constructor
    · rintro rfl
      exact Or.inl ⟨h, rfl⟩
    · rintro (⟨_, rfl⟩ | ⟨hne, _⟩)
      · rfl
      · exact absurd h hne
  · next h =>
    constructor
    · rintro rfl
      exact Or.inr ⟨h, String.toList_ofList⟩
    · rintro (⟨hmissing, _⟩ | ⟨_, rfl⟩)
      · exact absurd hmissing h
      · exact String.ofList_toList

theorem readCode_eq_ok_iff {i : Int} :
    readCode column cs = .ok i ↔
      Given (Signed 10) 0 cs i ∧ -(UInt64.size / 2 : Nat) ≤ i ∧ i < (UInt64.size / 2 : Nat) := by
  have hzero : -(UInt64.size / 2 : Nat) ≤ (0 : Int) ∧ (0 : Int) < (UInt64.size / 2 : Nat) := by
    decide
  rw [readCode, readColumn_eq_ok_iff]
  simp only [Given, Numeral.readInt_eq_ok_iff (show 0 < 10 by decide)
    (show 0 < UInt64.size / 2 by decide)]
  constructor
  · rintro (⟨rfl, rfl⟩ | ⟨hne, hsigned, hrange⟩)
    · exact ⟨Or.inl ⟨rfl, rfl⟩, hzero⟩
    · exact ⟨Or.inr ⟨hne, hsigned⟩, hrange⟩
  · rintro ⟨habsent | ⟨hne, hsigned⟩, hrange⟩
    · exact Or.inl habsent
    · exact Or.inr ⟨hne, hsigned, hrange⟩

/-! ### Rows that are read -/

theorem ofCode?_eq_some_lockOp_iff {op : LockOp} {i : Int} :
    LockOp.ofCode? i = some op ↔ i = op.code := by
  constructor
  · intro h
    unfold LockOp.ofCode? at h
    split_ifs at h
    all_goals
      cases h
      assumption
  · rintro rfl
    exact op.ofCode?_code

theorem ofCode?_eq_some_irqSync_iff {m : IrqSync} {i : Int} :
    IrqSync.ofCode? i = some m ↔ i = m.code := by
  constructor
  · intro h
    unfold IrqSync.ofCode? at h
    split_ifs at h
    all_goals
      cases h
      assumption
  · rintro rfl
    exact m.ofCode?_code

/-- The codes of operations and of modes are read as they are. -/
theorem readCode_of_code {code : Nat} (hcode : code < 4) :
    readCode column cs = .ok (code : Int) ↔ Given (Signed 10) 0 cs (code : Int) := by
  have hrange : -(UInt64.size / 2 : Nat) ≤ (code : Int) ∧
      (code : Int) < (UInt64.size / 2 : Nat) := by
    have hbound : (4 : Int) ≤ (UInt64.size / 2 : Nat) := by decide
    omega
  rw [readCode_eq_ok_iff, and_iff_left hrange]

theorem code_lockOp_lt (op : LockOp) : op.code < 4 := by
  rcases op with side | side
  · cases side <;> decide
  · cases side <;> decide

theorem code_irqSync_lt (m : IrqSync) : m.code < 4 := by
  cases m <;> decide

section Rows

variable {r r' : Row} {size : UInt64} {operation : Operation} {e : Event}

theorem does_of_readLockOperation (haction : r.action = ['l'])
    (h : readLockOperation r = .ok operation) : r.Does size operation := by
  unfold readLockOperation at h
  split at h
  · cases h
  · next hpresent =>
    obtain ⟨opCode, hopCode, h⟩ := bind_eq_ok h
    split at h
    · cases h
    · next op hop =>
      obtain ⟨irqCode, hirqCode, h⟩ := bind_eq_ok h
      split at h
      · cases h
      · next irqSync hirqSync =>
        obtain ⟨flags, hflags, h⟩ := bind_eq_ok h
        cases h
        rw [ofCode?_eq_some_lockOp_iff.mp hop, readCode_of_code (code_lockOp_lt op)] at hopCode
        rw [ofCode?_eq_some_irqSync_iff.mp hirqSync,
          readCode_of_code (code_irqSync_lt irqSync)] at hirqCode
        rcases hopCode with ⟨hmissing, _⟩ | ⟨_, hsigned⟩
        · exact absurd hmissing hpresent
        · have hlock : r.TellsLock op irqSync flags :=
            ⟨haction, hpresent, hsigned, hirqCode, readFlags_eq_ok_iff.mp hflags⟩
          cases op with
          | acquire side => exact .acquire side irqSync flags hlock
          | release side => exact .release side irqSync flags hlock

theorem readOperation_of_tellsLock {op : LockOp} {irqSync : IrqSync} {flags : UInt32}
    (h : r.TellsLock op irqSync flags) :
    readOperation r size = .ok (Operation.ofLockOp op irqSync flags) := by
  have hopCode : readCode "lock_op" r.lockOp = .ok (op.code : Int) :=
    (readCode_of_code (code_lockOp_lt op)).mpr (Or.inr ⟨h.present, h.lockOp⟩)
  have hirqCode : readCode "irq_sync" r.irqSync = .ok (irqSync.code : Int) :=
    (readCode_of_code (code_irqSync_lt irqSync)).mpr h.irqSync
  simp only [readOperation, h.action, readLockOperation, if_neg h.present, hopCode, hirqCode,
    readFlags_eq_ok_iff.mpr h.flags, bind, Except.bind, LockOp.ofCode?_code,
    IrqSync.ofCode?_code]

theorem readOperation_eq_ok_iff : readOperation r size = .ok operation ↔ r.Does size operation := by
  constructor
  · intro h
    unfold readOperation at h
    split at h
    · next haction =>
      cases h
      exact .alloc haction
    · next haction =>
      cases h
      exact .free haction
    · next haction =>
      cases h
      exact .read haction
    · next haction =>
      cases h
      exact .write haction
    · next haction => exact does_of_readLockOperation haction h
    · cases h
    · cases h
  · intro h
    cases h with
    | alloc haction => simp only [readOperation, haction]
    | free haction => simp only [readOperation, haction]
    | read haction => simp only [readOperation, haction]
    | write haction => simp only [readOperation, haction]
    | acquire side irqSync flags hlock => exact readOperation_of_tellsLock hlock
    | release side irqSync flags hlock => exact readOperation_of_tellsLock hlock

theorem readRow_eq_ok_iff : readRow r = .ok e ↔ r.Tells e := by
  simp only [readRow, bind_eq_ok_iff, readDecimal64_eq_ok_iff, readCtx_eq_ok_iff,
    readHex64_eq_ok_iff, readOperation_eq_ok_iff, readLineNumber_eq_ok_iff]
  constructor
  · rintro ⟨time, htime, ctx, hctx, address, haddress, size, hsize, operation, hoperation, line,
      hline, preemptCount, hpreempt, heq⟩
    cases heq
    exact ⟨htime, hctx, haddress, ⟨size, hsize, hoperation⟩, readText_eq_iff.mp rfl,
      readText_eq_iff.mp rfl, hline, readText_eq_iff.mp rfl, hpreempt⟩
  · intro h
    obtain ⟨size, hsize, hoperation⟩ := h.operation
    refine ⟨e.time, h.time, e.ctx, h.ctx, e.address, h.address, size, hsize, e.operation,
      hoperation, e.site.line, h.line, e.preemptCount, h.preemptCount, ?_⟩
    rw [readText_eq_iff.mpr h.typeName, readText_eq_iff.mpr h.file, readText_eq_iff.mpr h.function]

/-- A reader of rows asks the columns of locks on lock operations only, and one column never. -/
theorem readRow_congr (h : r.SameAsked r') : readRow r' = readRow r := by
  have hoperation : ∀ size, readOperation r' size = readOperation r size := by
    intro size
    unfold readOperation
    rw [h.action]
    split
    · rfl
    · rfl
    · rfl
    · rfl
    · next haction =>
      obtain ⟨hop, hirqSync, hflags⟩ := h.lock haction
      simp only [readLockOperation, hop, hirqSync, hflags]
    · rfl
    · rfl
  simp only [readRow, h.time, h.ctx, h.address, h.size, hoperation, h.line, h.preemptCount,
    h.typeName, h.file, h.function]

end Rows

/-! ### Lines that are read -/

variable {delimiter : Char} {line line' : List Char}

theorem ofColumns?_splitColumns_iff {r : Row} :
    Row.ofColumns? (Text.splitColumns delimiter line) = some r ↔ r.LaidOut delimiter line := by
  constructor
  · intro h
    have hcolumns := Row.eq_columns_of_ofColumns? h
    constructor
    · rw [← hcolumns]
      exact (List.intercalate_splitOn delimiter).symm
    · intro cs hcs
      rw [← hcolumns] at hcs
      exact Text.not_mem_of_mem_splitOn hcs
  · rintro ⟨rfl, hapart⟩
    have hsplit : Text.splitColumns delimiter (Text.joinColumns delimiter r.columns) = r.columns :=
      List.splitOn_intercalate delimiter hapart (List.cons_ne_nil _ _)
    rw [hsplit, Row.ofColumns?_columns]

theorem readLine_of_laidOut {r : Row} (h : r.LaidOut delimiter line) :
    readLine delimiter line = readRow r := by
  simp only [readLine, ofColumns?_splitColumns_iff.mpr h]

/-- A line is read exactly if it is the fourteen columns of a row, each a text of its kind, and
    then as the event with their values. Two lines that hold the same in the columns that are asked
    are read alike, to the same event or with the same fault. -/
theorem readLine_tells (delimiter : Char) (line : List Char) :
    (∀ e, readLine delimiter line = .ok e ↔
      ∃ r : Row, r.LaidOut delimiter line ∧ r.Tells e) ∧
    ∀ (r r' : Row) (line' : List Char), r.LaidOut delimiter line → r'.LaidOut delimiter line' →
      r.SameAsked r' → readLine delimiter line' = readLine delimiter line := by
  constructor
  · intro e
    constructor
    · intro h
      cases hrow : Row.ofColumns? (Text.splitColumns delimiter line) with
      | none =>
        simp only [readLine, hrow] at h
        cases h
      | some r =>
        have hlaid := ofColumns?_splitColumns_iff.mp hrow
        rw [readLine_of_laidOut hlaid, readRow_eq_ok_iff] at h
        exact ⟨r, hlaid, h⟩
    · rintro ⟨r, hlaid, htells⟩
      rw [readLine_of_laidOut hlaid]
      exact readRow_eq_ok_iff.mpr htells
  · intro r r' line' hlaid hlaid' hsame
    rw [readLine_of_laidOut hlaid, readLine_of_laidOut hlaid']
    exact readRow_congr hsame

/-- Signs, marks and zeros that no printer writes, and texts in columns that nobody asks. -/
example : readLine ';' "+07;-0;f;0X+fF;NULL;;i_lock;lock;NULL;+9;NULL;0;irq;0x".toList =
    .ok ⟨7, 0, .free, 255, "", ⟨"", 9, ""⟩, 0⟩ := by
  decide +kernel

end LockTrace.Trace
