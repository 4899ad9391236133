import LockTrace.Proofs.Ledger

/-!
# How long every acquisition lasts

A roster follows a trace as a ledger does, and remembers the time of every acquisition. A release
ends the latest acquisition of the same sub-lock by the same context that is not yet released. At
the end of the trace all others end at its largest time (`Roster.tenures`).
-/

namespace LockTrace

/-- An acquisition that is not yet released, and its time. -/
structure Stay where
  hold : Hold
  since : UInt64
deriving DecidableEq, Repr

/-- An acquisition with its time and the time of its release. -/
structure Tenure where
  hold : Hold
  start : UInt64
  stop : UInt64
deriving DecidableEq, Repr

def Stay.upTo (s : Stay) (time : UInt64) : Tenure := ⟨s.hold, s.since, time⟩

def Tenure.stay (t : Tenure) : Stay := ⟨t.hold, t.start⟩

/-- The acquisition that an event makes, if it is not of a lock that is left aside. -/
def Event.acquisition? (e : Event) : Option Stay :=
  match e.operation with
  | .acquire side _ _ =>
    if e.typeName ∈ Session.ignoredTypes then none else some ⟨⟨e.ctx, e.address, side⟩, e.time⟩
  | _ => none

structure Roster where
  /-- The acquisitions that are not yet released, the latest first. -/
  present : List Stay
  past : List Tenure

namespace Roster

def start : Roster := ⟨[], []⟩

def arrive (r : Roster) (s : Stay) : Roster := { r with present := s :: r.present }

/-- The latest acquisition of the hold is released. -/
def leave (r : Roster) (h : Hold) (time : UInt64) : Roster :=
  match r.present.find? (fun s => decide (s.hold = h)) with
  | none => r
  | some s => ⟨r.present.eraseP (fun s => decide (s.hold = h)), r.past ++ [s.upTo time]⟩

def advance (r : Roster) (e : Event) : Roster :=
  match e.operation with
  | .acquire side _ _ =>
    if e.typeName ∈ Session.ignoredTypes then r else r.arrive ⟨⟨e.ctx, e.address, side⟩, e.time⟩
  | .release side _ =>
    if e.typeName ∈ Session.ignoredTypes then r else r.leave ⟨e.ctx, e.address, side⟩ e.time
  | _ => r

/-- All acquisitions, as if those that are left were released at `time`. -/
def closed (r : Roster) (time : UInt64) : List Tenure := r.past ++ r.present.map (·.upTo time)

/-- The largest time of a trace. -/
def latest (es : List Event) : UInt64 := es.foldl (fun time e => max time e.time) 0

/-- How long every acquisition of a trace lasts. -/
def tenures (es : List Event) : List Tenure := (es.foldl advance start).closed (latest es)

/-! ### Releases -/

theorem leave_of_split {later earlier : List Stay} {s : Stay} {past : List Tenure}
    (hlater : ∀ u ∈ later, u.hold ≠ s.hold) (time : UInt64) :
    leave ⟨later ++ s :: earlier, past⟩ s.hold time =
      ⟨later ++ earlier, past ++ [s.upTo time]⟩ := by
  have hnone : ∀ u ∈ later, ¬ decide (u.hold = s.hold) = true := by
    intro u hu
    simpa using hlater u hu
  have hfind : (later ++ s :: earlier).find? (fun u => decide (u.hold = s.hold)) = some s := by
    rw [List.find?_append, List.find?_eq_none.mpr hnone]
    simp
  unfold leave
  simp only [hfind]
  rw [List.eraseP_append_right _ hnone]
  simp

/-- A release leaves everything as it is, or one acquisition goes from the present to the past. -/
theorem leave_cases (r : Roster) (h : Hold) (time : UInt64) :
    r.leave h time = r ∨
      ∃ s, (s :: (r.leave h time).present).Perm r.present ∧
        (r.leave h time).past = r.past ++ [s.upTo time] := by
  cases hfind : r.present.find? (fun s => decide (s.hold = h)) with
  | none =>
    unfold leave
    rw [hfind]
    exact Or.inl rfl
  | some s =>
    obtain ⟨hhold, later, earlier, hpresent, hlater⟩ := List.find?_eq_some_iff_append.mp hfind
    obtain rfl := of_decide_eq_true hhold
    obtain ⟨present, past⟩ := r
    obtain rfl := hpresent
    rw [leave_of_split (by simpa using hlater)]
    exact Or.inr ⟨s, List.perm_middle.symm, rfl⟩

/-- What is released when all others are may as well be released a little before. -/
theorem closed_leave_perm (r : Roster) (h : Hold) (time : UInt64) :
    ((r.leave h time).closed time).Perm (r.closed time) := by
  rcases r.leave_cases h time with heq | ⟨s, hpresent, hpast⟩
  · rw [heq]
  · unfold closed
    rw [hpast, List.append_assoc]
    exact (hpresent.map (·.upTo time)).append_left _

/-! ### Acquisitions -/

/-- The acquisitions so far, without their ends. -/
def begun (r : Roster) : List Stay := r.past.map Tenure.stay ++ r.present

theorem begun_leave_perm (r : Roster) (h : Hold) (time : UInt64) :
    (r.leave h time).begun.Perm r.begun := by
  rcases r.leave_cases h time with heq | ⟨s, hpresent, hpast⟩
  · rw [heq]
  · unfold begun
    rw [hpast, List.map_append, List.append_assoc]
    exact hpresent.append_left _

theorem begun_advance_perm (r : Roster) (e : Event) :
    (r.advance e).begun.Perm (r.begun ++ e.acquisition?.toList) := by
  unfold advance Event.acquisition?
  cases e.operation with
  | acquire side irqSync flags =>
    simp only
    split
    · simp
    · exact (List.perm_middle.trans (List.perm_append_singleton _ _).symm)
  | release side flags =>
    simp only
    split
    · simp
    · simpa using r.begun_leave_perm _ _
  | _ => simp

theorem begun_foldl_perm (r : Roster) (es : List Event) :
    (es.foldl advance r).begun.Perm (r.begun ++ es.filterMap Event.acquisition?) := by
  induction es generalizing r with
  | nil => simp
  | cons e es ih =>
    have hstep := (r.begun_advance_perm e).append_right (es.filterMap Event.acquisition?)
    have hcons : (e :: es).filterMap Event.acquisition? =
        e.acquisition?.toList ++ es.filterMap Event.acquisition? := by
      cases h : e.acquisition? <;> simp [h]
    rw [hcons, ← List.append_assoc]
    exact (ih (r.advance e)).trans hstep

/-- Every acquisition of a trace lasts for some time, and nothing else does. -/
theorem tenures_perm (es : List Event) :
    ((tenures es).map Tenure.stay).Perm (es.filterMap Event.acquisition?) := by
  have hstay : ∀ time, Tenure.stay ∘ (·.upTo time) = id := fun _ => rfl
  have hall := start.begun_foldl_perm es
  unfold tenures closed
  rw [List.map_append, List.map_map, hstay, List.map_id]
  exact hall

end Roster

end LockTrace
