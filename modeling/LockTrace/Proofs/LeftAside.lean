import LockTrace.Proofs.LookBehind
import LockTrace.Proofs.OwnUpdates
import LockTrace.Proofs.RosterSteps
import LockTrace.Proofs.Truncation

/-!
# Lock operations that are left aside

An operation on a lock of a type that is left aside is counted, and its time is noted. A session
looks at neither before the end of its trace, and then only at the largest time
(`Session.step_withNotes`, `Session.finish_withNotes`). So a trace with such an operation, if some
other event is not earlier, leads to the same output as the trace without it, and to the same
result up to the counts (`Session.runInto_of_leftAside`).
-/

namespace LockTrace

instance (e : Event) : Decidable e.LeftAside := inferInstanceAs (Decidable (_ ∧ _))

/-! ### Counts -/

namespace EventCounts

/-- The counts with one more operation that is ignored. -/
def ignore (c : EventCounts) : EventCounts := { c with ignored := c.ignored + 1 }

/-- The counts with one more event, as a session counts it. -/
def noting (c : EventCounts) (e : Event) : EventCounts :=
  if e.LeftAside then (c.record e.operation).ignore else c.record e.operation

/-- The counts with one more lock operation that is left aside. -/
def withAside (c : EventCounts) (op : LockOp) : EventCounts :=
  { c with
    total := c.total + 1
    ignored := c.ignored + 1
    acquires := if op.isAcquire then c.acquires + 1 else c.acquires
    releases := if op.isAcquire then c.releases else c.releases + 1 }

variable {c : EventCounts} {e : Event} {op : LockOp}

theorem noting_of_leftAside (he : e.LeftAside) (hop : e.operation.lockOp? = some op) :
    c.noting e = c.withAside op := by
  rw [noting, if_pos he]
  cases hoperation : e.operation with
  | acquire side irqSync flags =>
    rw [hoperation] at hop
    cases hop
    rfl
  | release side flags =>
    rw [hoperation] at hop
    cases hop
    rfl
  | _ => simp [hoperation, Operation.lockOp?] at hop

theorem record_comm (c : EventCounts) (op op' : Operation) :
    (c.record op).record op' = (c.record op').record op := by
  unfold record
  grind

theorem record_ignore (c : EventCounts) (op : Operation) :
    c.ignore.record op = (c.record op).ignore := by
  unfold record ignore
  grind

/-- The order of two events does not matter to the counts. -/
theorem noting_comm (c : EventCounts) (e x : Event) :
    (c.noting e).noting x = (c.noting x).noting e := by
  unfold noting
  by_cases he : e.LeftAside
  · by_cases hx : x.LeftAside
    · simp only [if_pos he, if_pos hx, record_ignore, c.record_comm e.operation]
    · simp only [if_pos he, if_neg hx, record_ignore, c.record_comm e.operation]
  · by_cases hx : x.LeftAside
    · simp only [if_neg he, if_pos hx, record_ignore, c.record_comm e.operation]
    · simp only [if_neg he, if_neg hx, c.record_comm e.operation]

end EventCounts

namespace Session

/-! ### What a session looks at -/

section Notes

variable (s : Session) (counts : EventCounts) (time : UInt64)

theorem lockEvent_withNotes (e : Event) (op : LockOp) (irqSync : IrqSync) (flags : UInt32) :
    (s.withNotes counts time).lockEvent e op irqSync flags =
      Prod.map (·.withNotes counts time) id (s.lockEvent e op irqSync flags) := by
  have hmonitor : (s.withNotes counts time).monitor = s.monitor := rfl
  have hplace : (s.withNotes counts time).place = s.place := rfl
  unfold lockEvent
  rw [hmonitor, hplace]
  split
  · rfl
  · cases s.monitor.findOrCreate e.address e.typeName flags s.place with
    | error cause => rfl
    | ok found => rfl

theorem freeEvent_withNotes (e : Event) :
    (s.withNotes counts time).freeEvent e = (s.freeEvent e).withNotes counts time := by
  have hheap : (s.withNotes counts time).heap = s.heap := rfl
  unfold freeEvent
  simp only [hheap]
  cases (s.heap.free e.address e.time).answer with
  | none => rfl
  | some a => rfl

theorem flushedLockEvent_withNotes (e : Event) (op : LockOp) (irqSync : IrqSync) (flags : UInt32)
    (hkept : e.typeName ∉ ignoredTypes) :
    (s.withNotes counts time).flushedLockEvent e op irqSync flags =
      Prod.map (·.withNotes counts time) id (s.flushedLockEvent e op irqSync flags) := by
  simp only [flushedLockEvent, if_neg hkept]
  rw [flush_withNotes, lockEvent_withNotes]

/-- Of an event that is left aside, only the counts and the largest time tell. -/
theorem step_of_leftAside {e : Event} (he : e.LeftAside) :
    s.step e = (s.withNotes (s.counts.noting e) (max s.lastTime e.time), none) := by
  have hnoting : s.counts.noting e = (s.counts.record e.operation).ignore := if_pos he
  obtain ⟨hlock, haside⟩ := he
  rw [hnoting]
  unfold step
  cases hop : e.operation with
  | acquire side irqSync flags =>
    simp only [flushedLockEvent, if_pos haside, note, hop]
    rfl
  | release side flags =>
    simp only [flushedLockEvent, if_pos haside, note, hop]
    rfl
  | _ => simp [hop, Operation.lockOp?] at hlock

/-- What an event does depends on neither the counts nor the largest time. -/
theorem step_withNotes (e : Event) :
    (s.withNotes counts time).step e =
      Prod.map (·.withNotes (counts.noting e) (max time e.time)) id (s.step e) := by
  by_cases he : e.LeftAside
  · rw [step_of_leftAside _ he, step_of_leftAside _ he]
    rfl
  have hnoting : counts.noting e = counts.record e.operation := if_neg he
  have hnote : (s.withNotes counts time).note e =
      (s.note e).withNotes (counts.noting e) (max time e.time) := by
    rw [hnoting]
    rfl
  have hkept : e.operation.lockOp?.isSome = true → e.typeName ∉ ignoredTypes :=
    fun hlock haside => he ⟨hlock, haside⟩
  unfold step
  simp only [hnote]
  cases hop : e.operation with
  | access kind size => rfl
  | alloc size =>
    simp only [flush_withNotes]
    rfl
  | free =>
    simp only [flush_withNotes, freeEvent_withNotes]
    rfl
  | acquire side irqSync flags =>
    exact flushedLockEvent_withNotes _ _ _ e _ irqSync flags (hkept (by rw [hop]; rfl))
  | release side flags =>
    exact flushedLockEvent_withNotes _ _ _ e _ .none flags (hkept (by rw [hop]; rfl))

theorem counts_step (e : Event) : (s.step e).1.counts = s.counts.noting e :=
  congrArg (·.1.counts) (s.step_withNotes s.counts s.lastTime e)

/-- The end of a trace depends on the largest time, but not on the counts. -/
theorem finish_withNotes :
    (s.withNotes counts s.lastTime).finish = s.finish.withNotes counts s.lastTime := by
  have htime : (s.flush none).lastTime = s.lastTime := s.lastTime_flush none
  unfold finish
  simp only [flush_withNotes]
  simp only [withNotes, htime]
  rfl

end Notes

/-! ### One event more -/

/-- The session that has followed the operation `e`, which is left aside, as well. -/
def sawAside (s : Session) (e : Event) : Session :=
  s.withNotes (s.counts.noting e) (max s.lastTime e.time)

/-- The session apart from the counts of events and their largest time. -/
def unnoted (s : Session) : Session := s.withNotes .zero 0

theorem step_sawAside (s : Session) (e x : Event) :
    (s.sawAside e).step x = Prod.map (·.sawAside e) id (s.step x) := by
  have hcounts : (s.counts.noting e).noting x = (s.step x).1.counts.noting e := by
    rw [counts_step, EventCounts.noting_comm]
  have htime : max (max s.lastTime e.time) x.time = max (s.step x).1.lastTime e.time := by
    simp only [lastTime_step, UInt64.max_def]
    grind
  rw [sawAside, step_withNotes, hcounts, htime]
  rfl

theorem run_sawAside (s : Session) (e : Event) (es : List Event) :
    (s.sawAside e).run es = Prod.map (·.sawAside e) id (s.run es) := by
  induction es generalizing s with
  | nil => rfl
  | cons x es ih =>
    have hsaw := s.step_sawAside e x
    cases hstep : s.step x with
    | mk s' stop =>
      rw [hstep] at hsaw
      cases stop with
      | none => rw [run_cons hsaw, run_cons hstep, ih]
      | some cause =>
        rw [run_cons_of_stop hsaw, run_cons_of_stop hstep]
        rfl

theorem finish_sawAside {s : Session} {e : Event} (htime : e.time ≤ s.lastTime) :
    (s.sawAside e).finish = s.finish.sawAside e := by
  have hmax : max s.lastTime e.time = s.lastTime := by
    rw [UInt64.max_def]
    grind
  have hnotes := s.finish_withNotes s.counts
  have hcounts : s.finish.counts = s.counts := (congrArg counts hnotes :)
  have hlast : s.finish.lastTime = s.lastTime := (congrArg lastTime hnotes :)
  rw [sawAside, sawAside, hmax, finish_withNotes, hcounts, hlast, hmax]

/-- Where following a trace has led to with the event `e` in it, beside where it has led to
    without. Both may have stopped before that event. -/
structure AlsoSaw (e : Event) (without after : Session × Option Fatal) : Prop where
  unnoted : after.1.unnoted = without.1.unnoted
  stop : after.2 = without.2
  saw : without.2 = none → after.1 = without.1.sawAside e

theorem alsoSaw_run {e : Event} (he : e.LeftAside) (s : Session) (before after : List Event) :
    AlsoSaw e (s.run (before ++ after)) (s.run (before ++ e :: after)) := by
  induction before generalizing s with
  | nil =>
    have hstep : s.step e = (s.sawAside e, none) := s.step_of_leftAside he
    rw [List.nil_append, List.nil_append, run_cons hstep, run_sawAside]
    exact ⟨rfl, rfl, fun _ => rfl⟩
  | cons x before ih =>
    rw [List.cons_append, List.cons_append]
    cases hstep : s.step x with
    | mk s' stop =>
      cases stop with
      | none =>
        rw [run_cons hstep, run_cons hstep]
        exact ih s'
      | some cause =>
        rw [run_cons_of_stop hstep, run_cons_of_stop hstep]
        exact ⟨rfl, rfl, nofun⟩

theorem alsoSaw_complete {e : Event} (he : e.LeftAside) {s : Session} {before after : List Event}
    (htime : e.time ≤ (before ++ after).foldl (fun time e => max time e.time) s.lastTime) :
    AlsoSaw e (s.complete (before ++ after)) (s.complete (before ++ e :: after)) := by
  obtain ⟨hunnoted, hstop, hsaw⟩ := alsoSaw_run he s before after
  unfold complete
  cases hrun : s.run (before ++ after) with
  | mk s₁ stop₁ =>
    cases hrun' : s.run (before ++ e :: after) with
    | mk s₂ stop₂ =>
      rw [hrun, hrun'] at hunnoted hstop hsaw
      simp only at hunnoted hstop hsaw
      subst hstop
      cases stop₂ with
      | none =>
        rw [← lastTime_run hrun] at htime
        rw [hsaw rfl]
        simp only [finish_sawAside htime]
        exact ⟨rfl, rfl, fun _ => rfl⟩
      | some cause => exact ⟨hunnoted, rfl, nofun⟩

theorem AlsoSaw.outcome {e : Event} {without after : Session × Option Fatal}
    (h : AlsoSaw e without after) :
    Writing.outcome after = (Writing.outcome without).map (·.sawAside e) := by
  obtain ⟨s, stop⟩ := without
  obtain ⟨s', stop'⟩ := after
  obtain ⟨_, rfl, hsaw⟩ := h
  cases stop' with
  | none => exact congrArg Except.ok (hsaw rfl)
  | some cause => rfl

/-- An operation on a lock of a type that is left aside, if some other event is not earlier, could
    as well be missing in a trace: the sink receives the same outputs in the same order, and the
    run stops for the same cause or ends with the same numbers, but for the counts of all events,
    of those that are ignored, and of acquisitions or of releases. Whatever events follow, what
    waits in the buffer and what was dropped is the same, and so is all else but the counts and
    the largest time. -/
theorem runInto_of_leftAside (config : Config) (symbols : SymbolTable) (sink : Sink)
    (before after : List Event) {e : Event} {op : LockOp} (hop : e.operation.lockOp? = some op)
    (hignored : e.typeName ∈ ignoredTypes) (htime : e.time ≤ Roster.latest (before ++ after)) :
    let start := initial config symbols
    let full := start.runInto sink (before ++ e :: after)
    let thinned := start.runInto sink (before ++ after)
    full.through = thinned.through ∧
      full.result.map (Prod.map id summary) = thinned.result.map (Prod.map id fun s =>
        { s.summary with events := s.summary.events.withAside op }) ∧
      full.result.map (Prod.map id unnoted) = thinned.result.map (Prod.map id unnoted) ∧
      ∀ later,
        (start.run (before ++ e :: later)).1.unnoted = (start.run (before ++ later)).1.unnoted ∧
        (start.run (before ++ e :: later)).2 = (start.run (before ++ later)).2 := by
  intro start full thinned
  have he : e.LeftAside := ⟨Option.isSome_of_eq_some hop, hignored⟩
  have halso : AlsoSaw e (start.complete (before ++ after))
      (start.complete (before ++ e :: after)) := alsoSaw_complete he htime
  have hjournal : (start.complete (before ++ e :: after)).1.journal =
      (start.complete (before ++ after)).1.journal := (congrArg journal halso.unnoted :)
  have hfull : full = ⟨thinned.through, thinned.result.map (Prod.map id (·.sawAside e))⟩ := by
    simp only [full, thinned, runInto_eq, hjournal, halso.outcome, Sink.settle_map]
  have hsummary : ∀ s : Session, (s.sawAside e).summary =
      { s.summary with events := s.summary.events.withAside op } := by
    intro s
    rw [← EventCounts.noting_of_leftAside he hop]
    rfl
  rw [hfull]
  refine ⟨rfl, ?_, ?_, ?_⟩
  · cases thinned.result with
    | error cause => rfl
    | ok r => exact congrArg (fun summary => Except.ok (r.1, summary)) (hsummary r.2)
  · cases thinned.result with
    | error cause => rfl
    | ok r => rfl
  · intro later
    have hlater := alsoSaw_run he start before later
    exact ⟨hlater.unnoted, hlater.stop⟩

/-- The operation on the lock that `plainUpdate` is the update of. -/
def spinAcquire : Event := ⟨3, 1, .acquire .writer .none 0, 0x100, "spinlock_t", Site.unknown, 0⟩

/-- An operation on another lock that is left aside. -/
def seqAcquire : Event := ⟨2, 1, .acquire .writer .none 0, 0x200, "seqlock_t", Site.unknown, 0⟩

/-- Between the update of a lock and the operation on it, the operation on another lock that is
    left aside is no obstacle: the two accesses are dropped, as they are without it. -/
theorem runInto_of_leftAside_between :
    seqAcquire.operation.lockOp? = some (.acquire .writer) ∧
      seqAcquire.typeName ∈ ignoredTypes ∧
      seqAcquire.time ≤ Roster.latest (plainUpdate ++ [spinAcquire]) ∧
      ((initial .default ∅).runInto .unlimited
          (plainUpdate ++ seqAcquire :: [spinAcquire])).through =
        ((initial .default ∅).runInto .unlimited (plainUpdate ++ [spinAcquire])).through ∧
      ((initial .default ∅).run (plainUpdate ++ [spinAcquire])).1.discarded = 2 ∧
      ((initial .default ∅).run (plainUpdate ++ seqAcquire :: [spinAcquire])).1.unnoted =
        ((initial .default ∅).run (plainUpdate ++ [spinAcquire])).1.unnoted := by
  obtain ⟨hthrough, _, _, hlater⟩ := runInto_of_leftAside .default ∅ .unlimited plainUpdate
    [spinAcquire] (e := seqAcquire) rfl (by decide) (by decide)
  exact ⟨rfl, by decide, by decide, hthrough, by decide, (hlater [spinAcquire]).1⟩

end Session

end LockTrace
