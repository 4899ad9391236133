import LockTrace.Proofs.Lines
import LockTrace.Proofs.Stopping
import LockTrace.Trace.Feed

/-!
# A trace is read line by line

A file is a number of lines with a line feed behind each, and a rest without one (`Bytes.Cut`).
What comes from reading it as a trace is one item for each line, but for a header in the first
line and for empty lines, and each item is made from the bytes of its line and its number alone
(`Trace.toList_readNumbered`). So lines do not change each other's items, and it does not matter
whether carriage returns are put before all line feeds. Reading the file block by block comes to
an end with the same items (`Trace.Feed.yields_read`).
-/

namespace LockTrace

/-! ### Cutting a file into lines -/

namespace Bytes

/-- Lines with a line feed behind each, and what follows the last of them. -/
def join (ended : List Bytes) (rest : Bytes) : Bytes := ended.flatMap (· ++ [lineFeed]) ++ rest

/-- The file consists of these lines with a line feed behind each, and of this rest. -/
structure Cut (bs : Bytes) (ended : List Bytes) (rest : Bytes) : Prop where
  eq : bs = join ended rest
  ended : ∀ p ∈ ended, lineFeed ∉ p
  rest : lineFeed ∉ rest

variable {bs rest rest' : Bytes} {ended ended' : List Bytes}

theorem exists_cut (bs : Bytes) : ∃ ended rest, bs.Cut ended rest := by
  induction bs with
  | nil => exact ⟨[], [], rfl, nofun, nofun⟩
  | cons b bs ih =>
    obtain ⟨ended, rest, heq, hended, hrest⟩ := ih
    by_cases hb : b = lineFeed
    · refine ⟨[] :: ended, rest, by rw [heq, hb]; rfl, ?_, hrest⟩
      exact List.forall_mem_cons.mpr ⟨nofun, hended⟩
    · cases ended with
      | nil =>
        refine ⟨[], b :: rest, by rw [heq]; rfl, nofun, ?_⟩
        exact List.not_mem_cons_of_ne_of_not_mem (Ne.symm hb) hrest
      | cons p ps =>
        obtain ⟨hp, hps⟩ := List.forall_mem_cons.mp hended
        refine ⟨(b :: p) :: ps, rest, by rw [heq]; rfl, ?_, hrest⟩
        exact List.forall_mem_cons.mpr
          ⟨List.not_mem_cons_of_ne_of_not_mem (Ne.symm hb) hp, hps⟩

namespace Cut

theorem splitOn (h : bs.Cut ended rest) : bs.splitOn lineFeed = ended ++ [rest] := by
  rw [h.eq]
  exact Text.splitOn_flatMap_append_of_not_mem h.ended h.rest

/-- There is only one way to cut a file. -/
theorem unique (h : bs.Cut ended rest) (h' : bs.Cut ended' rest') :
    ended' = ended ∧ rest' = rest := by
  obtain ⟨hended, hrest⟩ := List.append_inj' (h'.splitOn.symm.trans h.splitOn) rfl
  exact ⟨hended, List.head_eq_of_cons_eq hrest⟩

theorem lines (h : bs.Cut ended rest) :
    bs.lines = ended.map dropReturn ++ if rest.isEmpty then [] else [rest] := by
  unfold Bytes.lines
  rw [h.splitOn]
  simp only [List.getLast?_concat, List.dropLast_concat, Option.getD_some]

/-- Lines that are complete are the first lines, whatever follows them. -/
theorem lines_append (h : bs.Cut ended rest) (more : Bytes) :
    (bs ++ more).lines = ended.map dropReturn ++ (rest ++ more).lines := by
  obtain ⟨later, last, hlater⟩ := exists_cut (rest ++ more)
  have hcut : (bs ++ more).Cut (ended ++ later) last := by
    refine ⟨?_, ?_, hlater.rest⟩
    · rw [h.eq, join, join, List.append_assoc, hlater.eq, join, List.flatMap_append,
        List.append_assoc]
    · intro p hp
      exact (List.mem_append.mp hp).elim (h.ended p) (hlater.ended p)
  rw [hcut.lines, hlater.lines, List.map_append, List.append_assoc]

theorem cutLastLine (h : bs.Cut ended rest) : bs.cutLastLine = (join ended [], rest) := by
  have hend : (ended.flatMap (· ++ [lineFeed])).reverse.takeWhile (· != lineFeed) = [] := by
    cases ended using List.reverseRecOn with
    | nil => rfl
    | append_singleton ps p => simp [List.flatMap_append]
  have hlast : (bs.reverse.takeWhile (· != lineFeed)).reverse = rest := by
    have hrest : ∀ b ∈ rest.reverse, (b != lineFeed) = true := by
      intro b hb
      exact bne_iff_ne.mpr fun heq => h.rest (heq ▸ List.mem_reverse.mp hb)
    rw [h.eq, join, List.reverse_append, List.takeWhile_append_of_pos hrest, hend,
      List.append_nil, List.reverse_reverse]
  unfold Bytes.cutLastLine
  simp only [hlast]
  rw [h.eq]
  simp [join]

end Cut

/-! ### Carriage returns -/

/-- The file with a carriage return before each line feed. -/
def withReturns (bs : Bytes) : Bytes :=
  bs.flatMap fun b => if b = lineFeed then [carriageReturn, lineFeed] else [b]

theorem withReturns_append (bs bs' : Bytes) :
    (bs ++ bs').withReturns = bs.withReturns ++ bs'.withReturns := List.flatMap_append

theorem withReturns_of_not_mem (h : lineFeed ∉ bs) : bs.withReturns = bs := by
  induction bs with
  | nil => rfl
  | cons b bs ih =>
    have hb : b ≠ lineFeed := fun heq => h (heq ▸ List.mem_cons_self)
    have hbs : lineFeed ∉ bs := fun hmem => h (List.mem_cons_of_mem _ hmem)
    rw [withReturns, List.flatMap_cons, if_neg hb]
    exact congrArg (b :: ·) (ih hbs)

theorem Cut.withReturns (h : bs.Cut ended rest) :
    bs.withReturns.Cut (ended.map (· ++ [carriageReturn])) rest := by
  obtain ⟨heq, hended, hrest⟩ := h
  refine ⟨?_, ?_, hrest⟩
  · rw [heq]
    clear heq
    induction ended with
    | nil => exact withReturns_of_not_mem hrest
    | cons p ps ih =>
      obtain ⟨hp, hps⟩ := List.forall_mem_cons.mp hended
      have hline : (p ++ [lineFeed]).withReturns = p ++ [carriageReturn] ++ [lineFeed] := by
        rw [withReturns_append, withReturns_of_not_mem hp, List.append_assoc]
        rfl
      have hjoin : join (p :: ps) rest = (p ++ [lineFeed]) ++ join ps rest := by
        simp [join]
      rw [hjoin, withReturns_append, hline, ih hps]
      simp [join]
  · intro p hp
    obtain ⟨q, hq, rfl⟩ := List.mem_map.mp hp
    rw [List.mem_append, List.mem_singleton, not_or]
    exact ⟨hended q hq, by decide⟩

/-- If no line ends with a carriage return, those before the line feeds do not show. -/
theorem Cut.lines_withReturns (h : bs.Cut ended rest)
    (hended : ∀ p ∈ ended, p.getLast? ≠ some carriageReturn) :
    bs.withReturns.lines = bs.lines := by
  have hdrop : (ended.map (· ++ [carriageReturn])).map dropReturn = ended.map dropReturn := by
    rw [List.map_map]
    refine List.map_congr_left fun p hp => ?_
    have hline : dropReturn (p ++ [carriageReturn]) = p := by
      rw [dropReturn, List.getLast?_concat, if_pos rfl, List.dropLast_concat]
    exact hline.trans (dropReturn_eq_self (hended p hp)).symm
  rw [h.lines, h.withReturns.lines, hdrop]

end Bytes

namespace Trace

open Bytes (Cut)

/-! ### What a line stands for -/

/-- A line that is a text and does not start with a digit. -/
def IsHeader (line : Bytes) : Prop := ∃ text ∈ line.chars?, ∀ c ∈ text.head?, c.isDigit = false

instance (line : Bytes) : Decidable (IsHeader line) :=
  inferInstanceAs (Decidable (∃ text ∈ line.chars?, ∀ c ∈ text.head?, c.isDigit = false))

/-- A line that stands for nothing: a header in the first line, or a line that is empty without
    the carriage return at its end. -/
def Skipped (number : Nat) (line : Bytes) : Prop :=
  number = 1 ∧ IsHeader line ∨ Bytes.dropReturn line = []

instance (number : Nat) (line : Bytes) : Decidable (Skipped number line) :=
  inferInstanceAs (Decidable (_ ∨ _))

/-- What a line stands for that is not skipped. -/
def itemOf (delimiter : Char) (number : Nat) (line : Bytes) : Item :=
  match line.chars? with
  | none => .error ⟨number, .unreadable Bytes.notText⟩
  | some text =>
    (readLine delimiter (dropReturn text)).mapError fun fault => ⟨number, .malformed fault⟩

/-- What a line adds to the items of a trace: one item, unless it is skipped. -/
def itemsOf (delimiter : Char) (number : Nat) (line : Bytes) : List Item :=
  if Skipped number line then [] else [itemOf delimiter number line]

theorem startsWithDigit_dropReturn (text : List Char) :
    startsWithDigit (dropReturn text) = startsWithDigit text := by
  unfold dropReturn
  split
  · next hlast =>
    obtain ⟨front, rfl⟩ := List.getLast?_eq_some_iff.mp hlast
    rw [List.dropLast_concat]
    cases front with
    | nil => rfl
    | cons c front => rfl
  · rfl

theorem isHeader_iff {line : Bytes} {text : List Char} (h : line.chars? = some text) :
    IsHeader line ↔ startsWithDigit (dropReturn text) = false := by
  rw [startsWithDigit_dropReturn, IsHeader, h, startsWithDigit]
  cases text with
  | nil => simp
  | cons c cs => simp

/-- Nothing is left of the empty list, and of the last element alone. -/
theorem dropLast_if_eq_nil_iff {α : Type} [DecidableEq α] {a : α} {l : List α} :
    (if l.getLast? = some a then l.dropLast else l) = [] ↔ l = [] ∨ l = [a] := by
  cases l using List.reverseRecOn with
  | nil => simp
  | append_singleton front b =>
    simp only [List.getLast?_concat, List.dropLast_concat, Option.some_inj]
    by_cases h : b = a
    · simp [h]
    · simp [h, List.append_eq_singleton_iff]

/-- A line is blank if it is empty or a carriage return. -/
theorem bytes_dropReturn_eq_nil_iff {line : Bytes} :
    Bytes.dropReturn line = [] ↔ line.chars? = some [] ∨ line.chars? = some ['\r'] := by
  have hchars : ∀ text, line.chars? = some text ↔ line = Bytes.ofChars text := by
    intro text
    constructor
    · exact Bytes.eq_ofChars_of_chars?
    · rintro rfl
      exact Bytes.chars?_ofChars text
  rw [hchars, hchars, Bytes.dropReturn, dropLast_if_eq_nil_iff]
  rfl

theorem toList_readNumbered (delimiter : Char) (number : Nat) (line : Bytes) :
    (readNumbered delimiter number line).toList = itemsOf delimiter number line := by
  unfold readNumbered itemsOf itemOf
  cases htext : line.chars? with
  | none =>
    have hskip : ¬ Skipped number line := by
      rw [Skipped, bytes_dropReturn_eq_nil_iff, IsHeader, htext]
      simp
    rw [if_neg hskip]
    rfl
  | some text =>
    have hblank : Bytes.dropReturn line = [] ↔ dropReturn text = [] := by
      rw [bytes_dropReturn_eq_nil_iff, htext, Option.some_inj, Option.some_inj, dropReturn,
        dropLast_if_eq_nil_iff]
    have hskip : Skipped number line ↔
        (number = 1 ∧ startsWithDigit (dropReturn text) = false) ∨ dropReturn text = [] := by
      rw [Skipped, isHeader_iff htext, hblank]
    simp only [List.isEmpty_iff]
    split
    · next hheader =>
      rw [if_pos (hskip.mpr (Or.inl hheader))]
      rfl
    · next hheader =>
      split
      · next hempty =>
        rw [if_pos (hskip.mpr (Or.inr hempty))]
        rfl
      · next hempty =>
        rw [if_neg (mt hskip.mp (not_or.mpr ⟨hheader, hempty⟩))]
        rfl

theorem readLines_eq (delimiter : Char) (number : Nat) (lines : List Bytes) :
    readLines delimiter number lines =
      (lines.zipIdx number).flatMap fun (line, number) => itemsOf delimiter number line := by
  induction lines generalizing number with
  | nil => rfl
  | cons line lines ih =>
    rw [readLines_cons, toList_readNumbered, ih, List.zipIdx_cons, List.flatMap_cons]

/-! ### Lines beside each other -/

section Lines

variable (delimiter : Char) {bytes rest : Bytes} {ended : List Bytes}

/-- What follows the last line feed may be counted as a line in any case. -/
theorem read_of_cut (h : bytes.Cut ended rest) :
    read delimiter bytes = readLines delimiter 1 (ended.map Bytes.dropReturn ++ [rest]) := by
  rw [read, h.lines, readLines_append, readLines_append]
  cases rest with
  | nil =>
    have hskip : Skipped (1 + (ended.map Bytes.dropReturn).length) [] := Or.inr rfl
    rw [readLines_cons, toList_readNumbered, itemsOf, if_pos hskip]
    rfl
  | cons b bs => rfl

/-- Whatever stands in a line, the items of the others are the same. -/
theorem exists_read_join {before after : List Bytes}
    (hbefore : ∀ p ∈ before, Bytes.lineFeed ∉ p) (hafter : ∀ p ∈ after, Bytes.lineFeed ∉ p)
    (hrest : Bytes.lineFeed ∉ rest) : ∃ ahead behind, ∀ line, Bytes.lineFeed ∉ line →
      read delimiter (Bytes.join (before ++ line :: after) rest) =
        ahead ++ itemsOf delimiter (before.length + 1) (Bytes.dropReturn line) ++ behind := by
  refine ⟨readLines delimiter 1 (before.map Bytes.dropReturn),
    readLines delimiter (before.length + 2) (after.map Bytes.dropReturn ++ [rest]), ?_⟩
  intro line hline
  have hcut : (Bytes.join (before ++ line :: after) rest).Cut (before ++ line :: after) rest := by
    refine ⟨rfl, ?_, hrest⟩
    rw [List.forall_mem_append, List.forall_mem_cons]
    exact ⟨hbefore, hline, hafter⟩
  rw [read_of_cut delimiter hcut, List.map_append, List.map_cons, List.append_assoc,
    List.cons_append, readLines_append, readLines_cons, toList_readNumbered, List.length_map,
    List.append_assoc, Nat.add_comm 1]

theorem exists_read_join_rest (hended : ∀ p ∈ ended, Bytes.lineFeed ∉ p) :
    ∃ ahead, ∀ rest, Bytes.lineFeed ∉ rest → read delimiter (Bytes.join ended rest) =
      ahead ++ itemsOf delimiter (ended.length + 1) rest := by
  refine ⟨readLines delimiter 1 (ended.map Bytes.dropReturn), ?_⟩
  intro rest hrest
  have hcut : (Bytes.join ended rest).Cut ended rest := ⟨rfl, hended, hrest⟩
  rw [read_of_cut delimiter hcut, readLines_append, readLines_cons,
    toList_readNumbered, List.length_map, Nat.add_comm 1]
  exact congrArg _ (List.append_nil _)

end Lines

end Trace

/-! ### Reading block by block -/

/-- At the end of the file, and only there, a block is empty. -/
theorem BlockReader.waiting_fill_eq_nil_iff {r : BlockReader} {size : Nat} (hsize : 0 < size)
    {contents : Bytes} : (r.fill size contents).waiting = [] ↔ r.remaining contents = [] := by
  unfold fill remaining
  split
  · next h =>
    rw [List.isEmpty_iff.mp h, List.nil_append, List.take_eq_nil_iff]
    exact or_iff_right (Nat.ne_of_gt hsize)
  · next h =>
    have hne : r.waiting ≠ [] := fun heq => h (List.isEmpty_iff.mpr heq)
    simp [hne]

namespace Trace.Feed

/-- A file of which nothing has been read but the first block, and which is not compressed. -/
def plain (contents : Bytes) : Feed :=
  ⟨.plain (BlockReader.start.fill blockSize contents), [], 0, []⟩

theorem start_eq_plain {contents : Bytes} (h : Gzip.isCompressed contents = false) :
    start contents = plain contents := by
  simp [start, Source.start, h, plain]

/-- Reading on until there is nothing to go on with: what the lines stand for that are read, and
    where this ends. -/
inductive Yields (delimiter : Char) (contents : Bytes) : Feed → List Item → Feed → Prop
  | nothing {f : Feed} (h : f.read delimiter contents = none) : Yields delimiter contents f [] f
  | block {f f' last : Feed} {items items' : List Item}
      (h : f.read delimiter contents = some (items, f'))
      (hrest : Yields delimiter contents f' items' last) :
      Yields delimiter contents f (items ++ items') last

section Blocks

variable (delimiter : Char) {contents : Bytes} {f : Feed} {r : BlockReader}

/-- The reader behind its next block. -/
def next (contents : Bytes) (r : BlockReader) : BlockReader :=
  { r.fill blockSize contents with waiting := [] }

theorem remaining_eq_append (contents : Bytes) (r : BlockReader) :
    r.remaining contents =
      (r.fill blockSize contents).waiting ++ (next contents r).remaining contents :=
  (r.remaining_fill blockSize contents).symm

theorem piece_eq_nil_iff :
    (r.fill blockSize contents).waiting = [] ↔ r.remaining contents = [] :=
  BlockReader.waiting_fill_eq_nil_iff (by decide)

theorem read_of_end (hsource : f.source = .plain r) (hend : r.remaining contents = [])
    (hbegun : f.begun = []) : f.read delimiter contents = none := by
  have hpiece := piece_eq_nil_iff.mpr hend
  simp only [read, hsource, Source.read]
  rw [if_pos ⟨hpiece, hbegun⟩]

/-- The end of the file ends the line that was begun. -/
theorem read_of_begun (hsource : f.source = .plain r) (hend : r.remaining contents = [])
    (hbegun : f.begun ≠ []) : f.read delimiter contents =
      some (readLines delimiter (f.lineCount + 1) f.begun.lines,
        f.advance (.plain (next contents r)) [] f.begun.lines) := by
  have hpiece := piece_eq_nil_iff.mpr hend
  simp only [read, hsource, Source.read]
  rw [if_neg (fun h => hbegun h.2)]
  simp only [hpiece, if_true, List.append_nil]
  rfl

/-- A block ends some lines and begins another one. -/
theorem read_of_block (hsource : f.source = .plain r) (hmore : r.remaining contents ≠ [])
    {ended : List Bytes} {rest : Bytes}
    (hcut : (f.begun ++ (r.fill blockSize contents).waiting).Cut ended rest) :
    f.read delimiter contents =
      some (readLines delimiter (f.lineCount + 1) (ended.map Bytes.dropReturn),
        f.advance (.plain (next contents r)) rest (ended.map Bytes.dropReturn)) := by
  have hpiece := mt piece_eq_nil_iff.mp hmore
  have hlines : (Bytes.join ended []).lines = ended.map Bytes.dropReturn := by
    have hcomplete : (Bytes.join ended []).Cut ended [] := ⟨rfl, hcut.ended, nofun⟩
    rw [hcomplete.lines]
    exact List.append_nil _
  simp only [read, hsource, Source.read]
  rw [if_neg (fun h => hpiece h.1)]
  simp only [if_neg hpiece, hcut.cutLastLine, hlines]
  rfl

/-- A feed at the end of its file yields the line that was begun, if there is one. -/
theorem yields_of_end (hsource : f.source = .plain r) (hend : r.remaining contents = [])
    (hwarnings : f.lineCount = 0 → f.warnings = []) :
    ∃ last, Yields delimiter contents f
        (readLines delimiter (f.lineCount + 1) f.begun.lines) last ∧
      last.warnings = if f.lineCount = 0 then Trace.warnings f.begun.lines else f.warnings := by
  by_cases hempty : f.begun = []
  · rw [hempty]
    refine ⟨f, .nothing (read_of_end delimiter hsource hend hempty), ?_⟩
    split
    · next hfirst => exact hwarnings hfirst
    · rfl
  · have hread := read_of_begun delimiter hsource hend hempty
    have hnext : (next contents r).remaining contents = [] :=
      (List.append_eq_nil_iff.mp ((remaining_eq_append contents r).symm.trans hend)).2
    rw [← List.append_nil (readLines _ _ _)]
    exact ⟨_, .block hread (.nothing (read_of_end delimiter rfl hnext rfl)), rfl⟩

/-- Only the first line that is read can bring a warning. -/
theorem warnings_advance (source : Source) (begun : Bytes) (lines later : List Bytes) :
    (if (f.advance source begun lines).lineCount = 0 then Trace.warnings later
      else (f.advance source begun lines).warnings) =
    if f.lineCount = 0 then Trace.warnings (lines ++ later) else f.warnings := by
  cases lines with
  | nil =>
    show (if f.lineCount = 0 then _ else if f.lineCount = 0 then _ else f.warnings) = _
    split <;> rfl
  | cons line lines => exact if_neg (Nat.succ_ne_zero _)

end Blocks

/-- A file whose contents do not change is read to its end, whatever lies in which block. -/
theorem yields_of_source (delimiter : Char) {contents : Bytes} {f : Feed} {r : BlockReader}
    (hsource : f.source = .plain r) (hbegun : Bytes.lineFeed ∉ f.begun)
    (hwarnings : f.lineCount = 0 → f.warnings = []) :
    let lines := (f.begun ++ r.remaining contents).lines
    ∃ last, Yields delimiter contents f (readLines delimiter (f.lineCount + 1) lines) last ∧
      last.warnings = if f.lineCount = 0 then Trace.warnings lines else f.warnings := by
  intro lines
  induction hn : (r.remaining contents).length using Nat.strongRecOn generalizing f r with
  | ind n ih =>
    have hsplit := remaining_eq_append contents r
    by_cases hend : r.remaining contents = []
    · have hlines : lines = f.begun.lines := by rw [← List.append_nil f.begun, ← hend]
      rw [hlines]
      exact yields_of_end delimiter hsource hend hwarnings
    · obtain ⟨ended, rest, hcut⟩ :=
        Bytes.exists_cut (f.begun ++ (r.fill blockSize contents).waiting)
      let read := ended.map Bytes.dropReturn
      let f' := f.advance (.plain (next contents r)) rest read
      have hread : f.read delimiter contents =
          some (readLines delimiter (f.lineCount + 1) read, f') :=
        read_of_block delimiter hsource hend hcut
      have hlines : lines = read ++ (rest ++ (next contents r).remaining contents).lines := by
        rw [← hcut.lines_append, List.append_assoc, ← hsplit]
      have hshorter : ((next contents r).remaining contents).length < n := by
        rw [← hn, hsplit, List.length_append]
        exact Nat.lt_add_of_pos_left (List.length_pos_iff.mpr (mt piece_eq_nil_iff.mp hend))
      have hfresh : f'.lineCount = 0 → f'.warnings = [] := by
        intro hcount
        obtain ⟨hfirst, hnone⟩ := Nat.add_eq_zero_iff.mp hcount
        have hwarned : f'.warnings = Trace.warnings read := if_pos hfirst
        rw [hwarned, List.length_eq_zero_iff.mp hnone]
        rfl
      obtain ⟨last, hyields, hlast⟩ :=
        ih _ hshorter (f := f') (r := next contents r) rfl hcut.rest hfresh rfl
      refine ⟨last, ?_, ?_⟩
      · rw [hlines, readLines_append, Nat.add_right_comm]
        exact .block hread hyields
      · rw [hlast, warnings_advance, hlines]
        rfl

/-- Reading a file block by block ends, and gives what its lines stand for. -/
theorem yields_read (delimiter : Char) (contents : Bytes) :
    ∃ last, Yields delimiter contents (plain contents) (Trace.read delimiter contents) last ∧
      last.warnings = Trace.warnings contents.lines := by
  have hremaining : (BlockReader.start.fill blockSize contents).remaining contents = contents :=
    BlockReader.start.remaining_fill blockSize contents
  have hyields := @yields_of_source delimiter contents (plain contents) _ rfl nofun fun _ => rfl
  rw [hremaining] at hyields
  exact hyields

end Trace.Feed

namespace Trace

/-- A file can be cut into lines in one way only. Reading it as a trace, block by block, ends, with
    one item for each line that is not skipped, in the order of the lines. A line that is replaced
    by another, which may be malformed or no text at all, leaves the items of all others as they
    are. If no line ends with a carriage return, putting one before each line feed changes neither
    the items nor the warnings. -/
theorem read_lineByLine (delimiter : Char) (bytes : Bytes) :
    ∃ ended rest, bytes.Cut ended rest ∧
      (∀ ended' rest', bytes.Cut ended' rest' → ended' = ended ∧ rest' = rest) ∧
      (∃ last, (Feed.plain bytes).Yields delimiter bytes (read delimiter bytes) last ∧
        last.warnings = warnings bytes.lines) ∧
      read delimiter bytes =
        ((ended.map Bytes.dropReturn ++ [rest]).zipIdx 1).flatMap
          (fun (line, number) => itemsOf delimiter number line) ∧
      (∀ before line after, ended = before ++ line :: after → ∃ ahead behind,
        ∀ line', Bytes.lineFeed ∉ line' →
          read delimiter (Bytes.join (before ++ line' :: after) rest) =
            ahead ++ itemsOf delimiter (before.length + 1) (Bytes.dropReturn line') ++ behind) ∧
      (∃ ahead, ∀ rest', Bytes.lineFeed ∉ rest' →
        read delimiter (Bytes.join ended rest') =
          ahead ++ itemsOf delimiter (ended.length + 1) rest') ∧
      ((∀ p ∈ ended, p.getLast? ≠ some Bytes.carriageReturn) →
        read delimiter bytes.withReturns = read delimiter bytes ∧
          warnings bytes.withReturns.lines = warnings bytes.lines) := by
  obtain ⟨ended, rest, hcut⟩ := Bytes.exists_cut bytes
  refine ⟨ended, rest, hcut, fun _ _ => hcut.unique, Feed.yields_read delimiter bytes, ?_, ?_,
    exists_read_join_rest delimiter hcut.ended, ?_⟩
  · rw [read_of_cut delimiter hcut, readLines_eq]
  · rintro before line after rfl
    obtain ⟨hbefore, hafter⟩ := List.forall_mem_append.mp hcut.ended
    exact exists_read_join delimiter hbefore (List.forall_mem_cons.mp hafter).2 hcut.rest
  · intro hended
    have hlines := hcut.lines_withReturns hended
    exact ⟨congrArg (readLines delimiter 1) hlines, congrArg warnings hlines⟩

/-- Behind a header, a line that is no text is one item, and an empty line is none. -/
example : read ';' [104, 13, 10, 255, 10, 13, 13, 10] =
    [.error ⟨2, .unreadable Bytes.notText⟩] := by
  decide +kernel

end Trace

end LockTrace
