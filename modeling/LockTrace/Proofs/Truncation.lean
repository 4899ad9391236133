import LockTrace.Proofs.Calls
import LockTrace.Proofs.Deliveries

/-!
# A full sink only cuts the output short

Two runs of the same trace, one into a sink that takes every record and one into a sink with
room for some number of them. Neither run looks at its sink, so as long as there is room they
are the same run, and the record that finds no room is the end of the second
(`Session.truncates_runInto`). The trace itself never stops a run for the reason that records
cannot be written (`Session.ofTrace_of_complete`), so this cause tells that the sink was full.
-/

namespace LockTrace

/-! ### Causes that lie in the trace -/

/-- The cause is something that an event asks for. -/
def Fatal.OfTrace : Fatal → Prop
  | unknownLockType .. => True
  | contradictoryState .. => True
  | input .. => False
  | output .. => False

theorem Monitor.ofTrace_of_step {m : Monitor} {key : Nat} {t : Transition} {cause : Fatal}
    (h : (m.step key t).2 = some cause) : cause.OfTrace := by
  rcases m.step_cases key t with ⟨_, heq⟩ | ⟨_, lock, m₁, _, _, _, hcases⟩
  · rw [heq] at h
    cases h
  rcases hcases with ⟨_, _, heq⟩ | ⟨_, _, heq⟩ | ⟨_, heq⟩
  · rw [heq] at h
    unfold acquire at h
    split at h
    · cases h
      trivial
    · cases h
    · split at h
      · cases h
      · cases h
    · cases h
    · cases h
  · rw [heq] at h
    cases h
  · rw [heq] at h
    cases h

namespace Session

theorem ofTrace_of_lockEvent {s : Session} {e : Event} {op : LockOp} {irqSync : IrqSync}
    {flags : UInt32} {cause : Fatal} (h : (s.lockEvent e op irqSync flags).2 = some cause) :
    cause.OfTrace := by
  unfold lockEvent at h
  split at h
  · cases h
  · rcases s.monitor.findOrCreate_cases e.address e.typeName flags s.place with
      ⟨_, _, heq⟩ | ⟨_, _, _, heq⟩ | ⟨_, _, heq⟩
    · rw [heq] at h
      exact Monitor.ofTrace_of_step h
    · rw [heq] at h
      exact Monitor.ofTrace_of_step h
    · rw [heq] at h
      cases h
      trivial

theorem ofTrace_of_flushedLockEvent {s : Session} {e : Event} {op : LockOp} {irqSync : IrqSync}
    {flags : UInt32} {cause : Fatal}
    (h : (s.flushedLockEvent e op irqSync flags).2 = some cause) : cause.OfTrace := by
  unfold flushedLockEvent at h
  split at h
  · cases h
  · exact ofTrace_of_lockEvent h

theorem ofTrace_of_step {s : Session} {e : Event} {cause : Fatal}
    (h : (s.step e).2 = some cause) : cause.OfTrace := by
  unfold step at h
  simp only at h
  split at h
  · cases h
  · cases h
  · cases h
  · exact ofTrace_of_flushedLockEvent h
  · exact ofTrace_of_flushedLockEvent h

theorem ofTrace_of_complete {s : Session} {es : List Event} {cause : Fatal}
    (h : (s.complete es).2 = some cause) : cause.OfTrace := by
  induction es generalizing s with
  | nil => cases h
  | cons e es ih =>
    have hstep : ∀ cause, (s.step e).2 = some cause → cause.OfTrace := fun _ => ofTrace_of_step
    unfold complete run at h
    generalize s.step e = after at h hstep
    obtain ⟨s', _ | cause'⟩ := after
    · exact ih h
    · cases h
      exact hstep cause rfl

end Session

/-! ### Sinks with room for some records -/

namespace Sink

theorem records_offerLimited (room : Nat) (os : List Output) :
    (offerLimited room os).through.filterMap Output.record? =
      (os.filterMap Output.record?).take room := by
  induction os generalizing room with
  | nil => simp [offerLimited]
  | cons o os ih =>
    cases o with
    | record r =>
      cases room with
      | zero => rfl
      | succ room =>
        simp only [offerLimited, List.filterMap_cons, Output.record?, List.take_succ_cons, ih]
    | _ => simp only [offerLimited, List.filterMap_cons, Output.record?, ih]

theorem offerLimited_of_le {room : Nat} {os : List Output}
    (h : (os.filterMap Output.record?).length ≤ room) :
    ∃ s, offerLimited room os = ⟨os, some s⟩ := by
  induction os generalizing room with
  | nil => exact ⟨_, rfl⟩
  | cons o os ih =>
    cases o with
    | record r =>
      cases room with
      | zero => exact absurd h (Nat.not_succ_le_zero _)
      | succ room =>
        obtain ⟨s, hs⟩ := ih (Nat.le_of_succ_le_succ h)
        exact ⟨s, by simp only [offerLimited, hs]⟩
    | _ =>
      obtain ⟨s, hs⟩ := ih h
      exact ⟨s, by simp only [offerLimited, hs]⟩

theorem offerLimited_of_lt {room : Nat} {os : List Output}
    (h : room < (os.filterMap Output.record?).length) : (offerLimited room os).sink = none := by
  induction os generalizing room with
  | nil => cases h
  | cons o os ih =>
    cases o with
    | record r =>
      cases room with
      | zero => rfl
      | succ room => exact ih (Nat.lt_of_succ_lt_succ h)
    | _ => exact ih h

section Through

variable {sink sink' : Sink} {os : List Output}

theorem through_offer_of_some (h : (sink.offer os).sink = some sink') :
    (sink.offer os).through = os := by
  obtain ⟨_ | room⟩ := sink
  · rfl
  · rcases Nat.lt_or_ge room (os.filterMap Output.record?).length with hlt | hle
    · cases (offerLimited_of_lt hlt).symm.trans h
    · obtain ⟨last, hlast⟩ := offerLimited_of_le hle
      exact congrArg Delivery.through hlast

/-- What comes to a result with its sink has brought everything through. -/
theorem of_settle_ok {α : Type} {r : Except Fatal α} {a : α}
    (h : (sink.settle os r).result = .ok (sink', a)) :
    (sink.settle os r).through = os ∧ r = .ok a := by
  cases hoffer : (sink.offer os).sink with
  | none =>
    rw [settle_of_none hoffer] at h
    cases h
  | some last =>
    rw [settle_of_some hoffer] at h ⊢
    refine ⟨through_offer_of_some hoffer, ?_⟩
    cases r with
    | error cause => cases h
    | ok b =>
      cases h
      rfl

end Through

namespace Settled

variable {α : Type}

/-- The records that the sink has taken. -/
def records (d : Settled α) : List Record := d.through.filterMap Output.record?

/-- Work that was cut short after `room` records, beside the same work without a limit. -/
structure Truncates (cut whole : Settled α) (room : Nat) : Prop where
  records : cut.records = whole.records.take room
  stops : (∃ cause, cut.result = .error (.output cause)) ↔ room < whole.records.length
  agrees : whole.records.length ≤ room →
    cut.through = whole.through ∧ cut.result.map Prod.snd = whole.result.map Prod.snd

theorem truncates_settle (room : Nat) (os : List Output) {r : Except Fatal α}
    (hr : ∀ cause, r ≠ .error (.output cause)) :
    (settle ⟨some room⟩ os r).Truncates (unlimited.settle os r) room := by
  have hwhole : (unlimited.settle os r).records = os.filterMap Output.record? := rfl
  rcases Nat.lt_or_ge room (os.filterMap Output.record?).length with hlt | hle
  · have hnone : (offer ⟨some room⟩ os).sink = none := offerLimited_of_lt hlt
    have hfull : settle ⟨some room⟩ os r = ⟨(offerLimited room os).through, .error full⟩ :=
      settle_of_none hnone r
    rw [hfull]
    refine ⟨records_offerLimited room os, ?_, ?_⟩
    · rw [hwhole]
      exact ⟨fun _ => hlt, fun _ => ⟨_, rfl⟩⟩
    · rw [hwhole]
      exact fun hle => absurd hle (Nat.not_le_of_lt hlt)
  · obtain ⟨s, hs⟩ := offerLimited_of_le hle
    have hoffer : offer ⟨some room⟩ os = ⟨os, some s⟩ := hs
    have hroom : settle ⟨some room⟩ os r = ⟨os, r.map (s, ·)⟩ := by
      rw [settle_of_some (congrArg Delivery.sink hoffer), hoffer]
    rw [hroom]
    refine ⟨?_, ?_, fun _ => ⟨rfl, ?_⟩⟩
    · rw [hwhole, List.take_of_length_le hle]
      rfl
    · rw [hwhole]
      constructor
      · rintro ⟨cause, hcause⟩
        cases r with
        | ok a => cases hcause
        | error cause' =>
          cases hcause
          exact absurd rfl (hr cause)
      · exact fun hlt => absurd hle (Nat.not_le_of_lt hlt)
    · cases r <;> rfl

end Settled

end Sink

/-! ### Runs -/

namespace Session

/-- A run into a sink is the run without one, handed over to the sink. -/
theorem runInto_eq (s : Session) (sink : Sink) (es : List Event) :
    s.runInto sink es =
      sink.settle ((s.complete es).1.journal.since s.journal)
        (Writing.outcome (s.complete es)) := by
  obtain ⟨os, hjournal, hfollow⟩ := s.brings_followAll es
  rw [Journal.since_of_append hjournal]
  exact hfollow sink

/-- A sink with room for `room` records takes the first `room` records of the run without a
    limit. The run fails for want of room exactly if there are more, and ends in the same result
    otherwise. -/
theorem truncates_runInto (config : Config) (symbols : SymbolTable) (es : List Event)
    (room : Nat) :
    ((initial config symbols).runInto ⟨some room⟩ es).Truncates
      ((initial config symbols).runInto .unlimited es) room := by
  rw [runInto_eq, runInto_eq]
  apply Sink.Settled.truncates_settle
  intro cause houtcome
  have hstop : ((initial config symbols).complete es).2 = some (.output cause) := by
    unfold Writing.outcome at houtcome
    split at houtcome
    · cases houtcome
    · next hcause =>
      cases houtcome
      exact hcause
  exact ofTrace_of_complete hstop

/-- The request to flush takes room as well. -/
example : ((initial .default ∅).runInto ⟨some 0⟩ []).result = .error Sink.full := rfl

end Session

end LockTrace
