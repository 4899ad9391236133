import LockTrace.Conversion
import LockTrace.Proofs.Following
import Mathlib.Data.List.Induction

/-!
# Which traces convert

A conversion stops at the first line that cannot be read or asks for a lock that cannot be
created, and nowhere else (`Conversion.Stops`). An event asks for such a lock if it acquires
a lock of an unknown type where no lock is live (`Event.Baffles`). No other event stops a
session, since locks never are in a contradictory state.

By then the records of the events before are written, and those of the accesses that waited
when the unknown lock was met, but nothing that comes with the end of a trace.
-/

namespace LockTrace

/-! ### Events that stop a session -/

/-- The event acquires a lock of which nothing is known but a label that stands for no kind of
    lock. -/
structure Event.Baffles (e : Event) (s : Session) : Prop where
  acquires : ∃ side irqSync flags, e.operation = .acquire side irqSync flags
  kept : e.typeName ∉ Session.ignoredTypes
  absent : ¬ s.monitor.locks.LiveAt e.address
  unknown : LockKind.ofLabel? e.typeName = none

namespace Session

variable {s : Session} {e : Event}

theorem flush_note (s : Session) (e : Event) (lock : Option (UInt64 × Int64)) :
    (s.note e).flush lock = (s.flush lock).note e := by
  have hnotes : (s.flush lock).note e =
      (s.flush lock).withNotes (s.counts.record e.operation) (max s.lastTime e.time) := by
    rw [← s.counts_flush lock, ← s.lastTime_flush lock]
    rfl
  rw [hnotes]
  exact s.flush_withNotes _ _ lock

theorem lockEvent_of_unknown {op : LockOp} (hop : op.isAcquire = true)
    (hfind : s.monitor.locks.find? e.address = none) (hlabel : LockKind.ofLabel? e.typeName = none)
    (irqSync : IrqSync) (flags : UInt32) :
    s.lockEvent e op irqSync flags = (s, some (.unknownLockType e.address e.typeName)) := by
  have hfound : s.monitor.findOrCreate e.address e.typeName flags s.place =
      .error (.unknownLockType e.address e.typeName) := by
    simp [Monitor.findOrCreate, LockStore.findOrCreate, hfind, hlabel]
  simp [lockEvent, hop, hfound]

/-- A lock operation goes on unless it acquires a lock that is not live under a label that is
    not known. -/
theorem lockEvent_goesOn (hs : s.monitor.OneSided) {op : LockOp}
    (h : op.isAcquire = true → s.monitor.locks.find? e.address = none →
      LockKind.ofLabel? e.typeName ≠ none) (irqSync : IrqSync) (flags : UInt32) :
    (s.lockEvent e op irqSync flags).2 = none := by
  unfold lockEvent
  split
  · rfl
  · next hseen =>
    rcases s.monitor.findOrCreate_cases e.address e.typeName flags s.place with
      ⟨key, _, heq⟩ | ⟨kind, _, _, heq⟩ | ⟨hfind, hlabel, _⟩
    · simp only [heq]
      exact (hs.step key _).2
    · simp only [heq]
      exact ((hs.withLock e.address e.typeName kind flags _).step _ _).2
    · have hacquire : op.isAcquire = true := by simpa [hfind] using hseen
      exact absurd hlabel (h hacquire hfind)

theorem step_of_baffles (hs : s.monitor.locks.Keyed) (h : e.Baffles s) :
    s.step e = ((s.flush (some (e.address, e.ctx))).note e,
      some (.unknownLockType e.address e.typeName)) := by
  obtain ⟨side, irqSync, flags, hop⟩ := h.acquires
  have hacquire : (LockOp.acquire side).isAcquire = true := rfl
  have hlocks : ((s.flush (some (e.address, e.ctx))).note e).monitor.locks = s.monitor.locks :=
    s.locks_flush _
  have hfind : ((s.flush (some (e.address, e.ctx))).note e).monitor.locks.find? e.address =
      none := by
    rw [hlocks, hs.find?_eq_none_iff]
    exact h.absent
  have hlock := lockEvent_of_unknown hacquire hfind h.unknown irqSync flags
  simp only [step, hop, flushedLockEvent, if_neg h.kept, flush_note]
  exact hlock

theorem step_goesOn (hkeyed : s.monitor.locks.Keyed) (hs : s.monitor.OneSided)
    (h : ¬ e.Baffles s) : (s.step e).2 = none := by
  have hlocks : ∀ op irqSync flags,
      (op.isAcquire = true → ∃ side, e.operation = .acquire side irqSync flags) →
      ((s.note e).flushedLockEvent e op irqSync flags).2 = none := by
    intro op irqSync flags hop
    unfold flushedLockEvent
    split
    · rfl
    · next hkept =>
      have hlocks := (s.note e).locks_flush (some (e.address, e.ctx))
      apply lockEvent_goesOn
      · rw [Monitor.OneSided, hlocks]
        exact hs
      · intro hacquire hfind hlabel
        rw [hlocks] at hfind
        obtain ⟨side, hop⟩ := hop hacquire
        exact h ⟨⟨side, irqSync, flags, hop⟩, hkept, (hkeyed.find?_eq_none_iff _).mp hfind, hlabel⟩
  unfold step
  simp only
  split
  · rfl
  · rfl
  · rfl
  · next side irqSync flags hop => exact hlocks _ _ _ fun _ => ⟨side, hop⟩
  · exact hlocks _ _ _ fun hacquire => by cases hacquire

end Session

/-! ### The end of a trace is written at the end only -/

/-- Nothing that comes with the end of a trace was written so far. -/
def Monitor.Unfinished (m : Monitor) : Prop := Output.record .flush ∉ m.outputs

theorem Monitor.Unfinished.of_append {m m' : Monitor} (h : m.Unfinished) {os : List Output}
    (houtputs : m'.outputs = m.outputs ++ os) (hos : Output.record .flush ∉ os) :
    m'.Unfinished := by
  simp only [Unfinished, houtputs, List.mem_append, not_or]
  exact ⟨h, hos⟩

theorem Monitor.Unfinished.step {m : Monitor} (h : m.Unfinished) (key : Nat) (t : Transition) :
    (m.step key t).1.Unfinished := by
  apply step_induction (P := Unfinished) _ _ _ _ h
  · intro m i _ h
    rw [report_eq_withOutputs]
    exact h.of_append (m.outputs_withOutputs _) (by simp)
  · exact fun _ _ _ h => h
  · exact fun _ h => h
  · intro m side owner purge h _
    apply h.of_append (m.outputs_closeTxn key side owner t.time purge)
    intro ho
    exact LockStore.unwindOutputs_forall (P := (· ≠ .record .flush)) _ _ _ _ _ _ _ (by simp)
      (by simp) (by simp) (by simp) ho rfl

namespace Session

theorem flush_not_mem_allocate (h : Heap) (base size : UInt64) (typeName : String)
    (time : UInt64) : Output.record .flush ∉ (h.allocate base size typeName time).outputs := by
  unfold Heap.allocate
  split
  · simp
  · split
    · simp only
      split <;> simp
    · simp

theorem flush_not_mem_free (h : Heap) (base time : UInt64) :
    Output.record .flush ∉ (h.free base time).outputs := by
  unfold Heap.free
  split <;> simp

theorem keptAt_unfinished (time : UInt64) : KeptAt time fun s => s.monitor.Unfinished where
  same h hmonitor _ := by
    rw [hmonitor]
    exact h
  unseen lock op ctx h := h.of_append (Monitor.outputs_withOutputs _ _) (by simp)
  access a h := h.of_append (Monitor.outputs_write _ _) (by simp)
  withLock address label kind flags _ h :=
    h.of_append (Monitor.outputs_withLock ..) (by simp [Monitor.lockRows])
  operate key t _ h := h.step key t
  alloc e size h :=
    h.of_append (outputs_allocEvent _ e size) (flush_not_mem_allocate _ e.address size _ e.time)
  free e h := by
    obtain ⟨reports, houtputs⟩ := outputs_freeEvent _ e
    exact h.of_append houtputs (by simp [flush_not_mem_free])

end Session

/-! ### Lines that stop a conversion -/

namespace Trace

/-- The events that the first lines of a trace stand for. -/
def events (delimiter : Char) (lines : List Bytes) : List Event :=
  (readLines delimiter 1 lines).filterMap Except.toOption

theorem readLines_append (delimiter : Char) (number : Nat) (lines lines' : List Bytes) :
    readLines delimiter number (lines ++ lines') =
      readLines delimiter number lines ++ readLines delimiter (number + lines.length) lines' := by
  simp [readLines, List.zipIdx_append]

theorem readLines_cons (delimiter : Char) (number : Nat) (line : Bytes) (lines : List Bytes) :
    readLines delimiter number (line :: lines) =
      (readNumbered delimiter number line).toList ++ readLines delimiter (number + 1) lines := by
  cases hread : readNumbered delimiter number line <;> simp [readLines, hread]

/-- The error of a line names the line. -/
theorem line_of_readNumbered {delimiter : Char} {number : Nat} {line : Bytes} {error : LineError}
    (h : readNumbered delimiter number line = some (.error error)) : error.line = number := by
  unfold readNumbered at h
  split at h
  · cases h
    rfl
  · simp only at h
    split at h
    · cases h
    · split at h
      · cases h
      · cases hrow : readLine delimiter (dropReturn _) with
        | ok e =>
          rw [hrow] at h
          cases h
        | error fault =>
          rw [hrow] at h
          cases h
          rfl

end Trace

/-- The session that has followed the events of the first lines of a trace. -/
def Session.afterLines (config : Config) (symbols : SymbolTable) (lines : List Bytes) : Session :=
  ((Session.initial config symbols).run (Trace.events config.delimiter lines)).1

namespace Conversion

open Trace Session

section Lines

variable (config : Config) (symbols : SymbolTable)

/-- After the lines `before`, a conversion stops at `line`: with the given cause, and with what
    it has brought forth by then. -/
inductive Stops (before : List Bytes) (line : Bytes) : Fatal → Journal → Prop
  | unread (fault : LineFault)
      (hread : readNumbered config.delimiter (before.length + 1) line =
        some (.error ⟨before.length + 1, fault⟩)) :
      Stops before line (.input (LineError.causes ⟨before.length + 1, fault⟩))
        (afterLines config symbols before).journal
  | baffled (e : Event)
      (hread : readNumbered config.delimiter (before.length + 1) line = some (.ok e))
      (hbaffles : e.Baffles (afterLines config symbols before)) :
      Stops before line (.unknownLockType e.address e.typeName)
        ((afterLines config symbols before).flush (some (e.address, e.ctx))).journal

/-- No line stops a conversion. -/
def Unstopped (lines : List Bytes) : Prop :=
  ∀ before line after, lines = before ++ line :: after →
    ∀ cause journal, ¬ Stops config symbols before line cause journal

end Lines

variable {config : Config} {symbols : SymbolTable}

theorem Unstopped.of_append {lines lines' : List Bytes}
    (h : Unstopped config symbols (lines ++ lines')) : Unstopped config symbols lines := by
  intro before line after hsplit
  exact h before line (after ++ lines') (by simp [hsplit])

/-- If some line stops a conversion, a first one does. -/
theorem exists_first_stop {lines : List Bytes} (h : ¬ Unstopped config symbols lines) :
    ∃ before line after cause journal, lines = before ++ line :: after ∧
      Unstopped config symbols before ∧ Stops config symbols before line cause journal := by
  induction lines using List.reverseRecOn with
  | nil =>
    refine absurd ?_ h
    intro before line after hsplit
    simp at hsplit
  | append_singleton lines last ih =>
    by_cases hlines : Unstopped config symbols lines
    · simp only [Unstopped, not_forall, not_not] at h
      obtain ⟨before, line, after, hsplit, cause, journal, hstops⟩ := h
      rcases List.eq_nil_or_concat after with rfl | ⟨after, last', rfl⟩
      · obtain ⟨rfl, hlast⟩ := List.append_inj' hsplit rfl
        cases hlast
        exact ⟨lines, last, [], cause, journal, rfl, hlines, hstops⟩
      · -- the stop lies among the lines before the last
        rw [List.concat_eq_append, ← List.cons_append, ← List.append_assoc] at hsplit
        exact absurd hstops (hlines before line after (List.append_inj' hsplit rfl).1 cause journal)
    · obtain ⟨before, line, after, cause, journal, rfl, hfirst⟩ := ih hlines
      exact ⟨before, line, after ++ [last], cause, journal, by simp, hfirst⟩

theorem keyed_afterLines (lines : List Bytes) :
    (afterLines config symbols lines).monitor.locks.Keyed :=
  kept_keyed.run (s := Session.initial config symbols) .empty _

theorem oneSided_afterLines (lines : List Bytes) :
    (afterLines config symbols lines).monitor.OneSided :=
  (kept_inStep.run (inStep_initial config symbols) _).oneSided

theorem unfinished_afterLines (lines : List Bytes) :
    (afterLines config symbols lines).monitor.Unfinished := by
  apply run_induction (P := fun s => s.monitor.Unfinished)
  · exact fun e _ h => (keptAt_unfinished e.time).event h
  · exact List.not_mem_nil

/-- Lines that do not stop the conversion are followed to their end. -/
theorem run_of_unstopped {lines : List Bytes} (h : Unstopped config symbols lines) :
    (Session.initial config symbols).run (events config.delimiter lines) =
        (afterLines config symbols lines, none) ∧
      ∀ items, (Session.initial config symbols).runItems
          (readLines config.delimiter 1 lines ++ items) =
        (afterLines config symbols lines).runItems items := by
  induction lines using List.reverseRecOn with
  | nil => exact ⟨rfl, fun _ => rfl⟩
  | append_singleton lines line ih =>
    obtain ⟨hrun, hitems⟩ := ih h.of_append
    have hgoes : ∀ cause journal, ¬ Stops config symbols lines line cause journal :=
      h lines line [] rfl
    have hreads : readLines config.delimiter 1 (lines ++ [line]) =
        readLines config.delimiter 1 lines ++
          (readNumbered config.delimiter (lines.length + 1) line).toList := by
      rw [readLines_append, readLines_cons, Nat.add_comm]
      exact congrArg _ (List.append_nil _)
    cases hread : readNumbered config.delimiter (lines.length + 1) line with
    | none =>
      have hevents : events config.delimiter (lines ++ [line]) = events config.delimiter lines := by
        simp [events, hreads, hread]
      simpa [afterLines, hevents, hreads, hread] using ⟨hrun, hitems⟩
    | some item =>
      cases item with
      | error error =>
        have hline := line_of_readNumbered hread
        obtain ⟨number, fault⟩ := error
        cases hline
        exact absurd (Stops.unread fault hread) (hgoes _ _)
      | ok e =>
        have hstep := step_goesOn (keyed_afterLines lines) (oneSided_afterLines lines)
          fun hbaffles => hgoes _ _ (Stops.baffled e hread hbaffles)
        have hevents : events config.delimiter (lines ++ [line]) =
            events config.delimiter lines ++ [e] := by
          simp [events, hreads, hread, Except.toOption]
        have hafter : (Session.initial config symbols).run
            (events config.delimiter (lines ++ [line])) =
              (afterLines config symbols (lines ++ [line]), none) := by
          unfold afterLines
          rw [hevents, run_concat hrun e, ← hstep]
        refine ⟨hafter, fun items => ?_⟩
        rw [hevents, run_concat hrun e] at hafter
        rw [hreads, hread, List.append_assoc, hitems]
        simp [runItems, hafter]

/-- What comes of a conversion that a line stops. -/
theorem ofBytes_of_stops {bytes : Bytes} {before : List Bytes} {line : Bytes} {after : List Bytes}
    {cause : Fatal} {journal : Journal} (hlines : bytes.lines = before ++ line :: after)
    (hfirst : Unstopped config symbols before)
    (h : Stops config symbols before line cause journal) :
    (ofBytes config symbols bytes).result = .error cause ∧
      (ofBytes config symbols bytes).journal = journal := by
  have hrest : readLines config.delimiter 1 bytes.lines =
      readLines config.delimiter 1 before ++
        ((readNumbered config.delimiter (before.length + 1) line).toList ++
          readLines config.delimiter (before.length + 2) after) := by
    rw [hlines, readLines_append, readLines_cons, Nat.add_comm]
  have hconvert : ofBytes config symbols bytes = finish (Trace.warnings bytes.lines)
      ((afterLines config symbols before).runItems
        ((readNumbered config.delimiter (before.length + 1) line).toList ++
          readLines config.delimiter (before.length + 2) after)) := by
    rw [← (run_of_unstopped hfirst).2, ← hrest]
    rfl
  rw [hconvert]
  cases h with
  | unread fault hread => simp [hread, runItems, finish]
  | baffled e hread hbaffles =>
    have hstep := step_of_baffles (keyed_afterLines before) hbaffles
    simp only [hread, Option.toList_some, List.singleton_append, runItems, hstep, finish]
    exact ⟨trivial, rfl⟩

/-- What comes of a conversion that no line stops. -/
theorem ofBytes_of_unstopped {bytes : Bytes} (h : Unstopped config symbols bytes.lines) :
    (ofBytes config symbols bytes).result =
        .ok (afterLines config symbols bytes.lines).finish.summary ∧
      (ofBytes config symbols bytes).journal =
        (afterLines config symbols bytes.lines).finish.journal := by
  have hitems := (run_of_unstopped h).2 []
  rw [List.append_nil] at hitems
  simp [ofBytes, hitems, runItems, finish]

theorem Stops.flush_not_mem {before : List Bytes} {line : Bytes} {cause : Fatal}
    {journal : Journal} (h : Stops config symbols before line cause journal) :
    Record.flush ∉ journal.records := by
  have hunfinished : Output.record .flush ∉ journal.outputs.toList := by
    cases h with
    | unread fault hread => exact unfinished_afterLines before
    | baffled e hread hbaffles =>
      exact (keptAt_unfinished 0).flush (unfinished_afterLines before) _
  intro hmem
  exact hunfinished (Output.mem_records_iff.mp hmem)

/-- A conversion fails exactly if some line cannot be read or asks for a lock that cannot be
    created. It fails with the cause of the first such line, and has brought forth what the
    events before it did and, at an unknown lock, the accesses that waited. -/
theorem fails_of_bytes (config : Config) (symbols : SymbolTable) (bytes : Bytes) :
    let c := ofBytes config symbols bytes
    ((∃ cause, c.result = .error cause) ↔ ∃ before line after cause journal,
      bytes.lines = before ++ line :: after ∧ Stops config symbols before line cause journal) ∧
    (∀ cause, c.result = .error cause → ∃ before line after,
      bytes.lines = before ++ line :: after ∧ Unstopped config symbols before ∧
        Stops config symbols before line cause c.journal ∧ Record.flush ∉ c.journal.records) ∧
    (∀ lock op time readers writers,
      c.result ≠ .error (.contradictoryState lock op time readers writers)) ∧
    (∀ text, c.result ≠ .error (.output text)) ∧
    ∀ summary, c.result = .ok summary →
      summary = (afterLines config symbols bytes.lines).finish.summary ∧
        c.journal = (afterLines config symbols bytes.lines).finish.journal := by
  intro c
  by_cases hall : Unstopped config symbols bytes.lines
  · obtain ⟨hresult, hjournal⟩ := ofBytes_of_unstopped hall
    have hok : ∀ cause, c.result ≠ .error cause := by
      intro cause hcause
      cases hresult.symm.trans hcause
    refine ⟨⟨?_, ?_⟩, fun cause hcause => absurd hcause (hok cause), fun _ _ _ _ _ => hok _,
      fun _ => hok _, ?_⟩
    · rintro ⟨cause, hcause⟩
      exact absurd hcause (hok cause)
    · rintro ⟨before, line, after, cause, journal, hlines, hstops⟩
      exact absurd hstops (hall before line after hlines cause journal)
    · intro summary hsummary
      cases hresult.symm.trans hsummary
      exact ⟨rfl, hjournal⟩
  · obtain ⟨before, line, after, cause, journal, hlines, hfirst, hstops⟩ := exists_first_stop hall
    obtain ⟨hresult, hjournal⟩ := ofBytes_of_stops hlines hfirst hstops
    have hcause : ∀ cause', c.result = .error cause' → cause' = cause := by
      intro cause' h
      cases hresult.symm.trans h
      rfl
    refine ⟨⟨?_, fun _ => ⟨cause, hresult⟩⟩, ?_, ?_, ?_, ?_⟩
    · exact fun _ => ⟨before, line, after, cause, journal, hlines, hstops⟩
    · intro cause' h
      rw [hcause cause' h]
      have hstops' : Stops config symbols before line cause c.journal := hjournal ▸ hstops
      exact ⟨before, line, after, hlines, hfirst, hstops', hstops'.flush_not_mem⟩
    · intro lock op time readers writers h
      rw [← hcause _ h] at hstops
      cases hstops
    · intro text h
      rw [← hcause _ h] at hstops
      cases hstops
    · intro summary h
      cases hresult.symm.trans h

end Conversion

end LockTrace
