import LockTrace.Proofs.Moves

/-!
# What sessions keep

An event makes a session do a few things: accesses are counted and written, allocations begin
and end, locks are created and operated on. A property of sessions that each of them keeps
(`Session.KeptAt`) holds after every event if it holds before (`Session.KeptAt.event`), and what
the events of all times keep holds after every run (`Session.run_induction`). What happens to
allocations stands apart (`Session.KeptByLocksAt`), for properties that it can break.

Often only the monitor matters. A property of monitors that whatever a session does to its
monitor keeps (`Monitor.KeptAt`, `Monitor.Kept`) is kept by sessions, and at the end of a trace,
when all transactions are closed as well (`Monitor.Kept.finish`).
-/

namespace LockTrace

namespace Session

/-- A property that an event at the given time keeps, whatever it makes a session do but begin
    or end an allocation. -/
structure KeptByLocksAt (time : UInt64) (P : Session → Prop) : Prop where
  /-- The buffer and the counts do not matter. -/
  same : ∀ {s s' : Session}, P s → s'.monitor = s.monitor → s'.heap = s.heap → P s'
  unseen : ∀ {s : Session} (lock : String) (op : LockOp) (ctx : Int64), P s →
    P (s.addOutputs [.report (.operation .noRunningTxn lock op time ctx)])
  access : ∀ {s : Session} (a : PendingAccess), P s → P (s.writeAccess a)
  withLock : ∀ {s : Session} (address : UInt64) (label : String) (kind : LockKind)
    (flags : UInt32), s.monitor.locks.find? address = none → P s →
    P { s with monitor := s.monitor.withLock address label kind flags (s.place address) }
  operate : ∀ {s : Session} (key : Nat) (t : Transition), t.time = time → P s →
    P { s with monitor := (s.monitor.step key t).1 }

namespace KeptByLocksAt

variable {time : UInt64} {P : Session → Prop} {s : Session}

theorem note (hP : KeptByLocksAt time P) (h : P s) (e : Event) : P (s.note e) := hP.same h rfl rfl

theorem flush (hP : KeptByLocksAt time P) (h : P s) (lock : Option (UInt64 × Int64)) :
    P (s.flush lock) :=
  flush_induction_accesses (fun _ a _ h => hP.access a h) (fun _ => hP.same h rfl rfl) lock

theorem lockEvent (hP : KeptByLocksAt time P) (h : P s) {e : Event} (he : e.time = time)
    (op : LockOp) (irqSync : IrqSync) (flags : UInt32) :
    P (s.lockEvent e op irqSync flags).1 := by
  unfold Session.lockEvent
  split
  · rw [he]
    exact hP.unseen _ op e.ctx h
  · rcases s.monitor.findOrCreate_cases e.address e.typeName flags s.place with
      ⟨key, _, heq⟩ | ⟨kind, hnew, _, heq⟩ | ⟨_, _, heq⟩
    · rw [heq]
      exact hP.operate key _ he h
    · rw [heq]
      exact hP.operate _ _ he (hP.withLock e.address e.typeName kind flags hnew h)
    · rw [heq]
      exact h

theorem flushedLockEvent (hP : KeptByLocksAt time P) (h : P s) {e : Event} (he : e.time = time)
    (op : LockOp) (irqSync : IrqSync) (flags : UInt32) :
    P (s.flushedLockEvent e op irqSync flags).1 := by
  unfold Session.flushedLockEvent
  split
  · exact hP.same h rfl rfl
  · exact hP.lockEvent (hP.flush h _) he op irqSync flags

/-- What an event does to the heap may need an argument of its own. -/
theorem event {e : Event} (hP : KeptByLocksAt e.time P) (h : P s)
    (halloc : ∀ size, e.operation = .alloc size → P (((s.note e).flush none).allocEvent e size))
    (hfree : e.operation = .free → P (((s.note e).flush none).freeEvent e)) :
    P (s.step e).1 := by
  have hnote : P (s.note e) := hP.note h e
  unfold Session.step
  simp only
  split
  · exact hP.same hnote rfl rfl
  · next heq => exact halloc _ heq
  · next heq => exact hfree heq
  · exact hP.flushedLockEvent hnote rfl _ _ _
  · exact hP.flushedLockEvent hnote rfl _ _ _

end KeptByLocksAt

/-- A property that an event at the given time keeps, whatever it makes a session do. -/
structure KeptAt (time : UInt64) (P : Session → Prop) : Prop extends KeptByLocksAt time P where
  alloc : ∀ {s : Session} (e : Event) (size : UInt64), P s → P (s.allocEvent e size)
  free : ∀ {s : Session} (e : Event), P s → P (s.freeEvent e)

theorem KeptAt.event {s : Session} {e : Event} {P : Session → Prop} (hP : KeptAt e.time P)
    (h : P s) : P (s.step e).1 :=
  hP.toKeptByLocksAt.event h (fun _ _ => hP.alloc e _ (hP.flush (hP.note h e) none))
    fun _ => hP.free e (hP.flush (hP.note h e) none)

/-! ### Counts and times -/

/-- The session with other counts and another largest time. -/
def withNotes (s : Session) (counts : EventCounts) (time : UInt64) : Session :=
  { s with counts := counts, lastTime := time }

/-- Emptying the buffer has nothing to do with either. -/
theorem flush_withNotes (s : Session) (counts : EventCounts) (time : UInt64)
    (lock : Option (UInt64 × Int64)) :
    (s.withNotes counts time).flush lock = (s.flush lock).withNotes counts time := by
  have hfold : ∀ (as : List PendingAccess) (s : Session),
      as.foldl writeAccess (s.withNotes counts time) =
        (as.foldl writeAccess s).withNotes counts time := by
    intro as
    induction as with
    | nil => exact fun _ => rfl
    | cons a as ih => exact fun s => ih (s.writeAccess a)
  let emptied : Session :=
    { s with pending := [], discarded := s.discarded + (dropOwnUpdate lock s.pending).2 }
  exact hfold _ emptied

theorem counts_flush (s : Session) (lock : Option (UInt64 × Int64)) :
    (s.flush lock).counts = s.counts :=
  (congrArg counts (s.flush_withNotes s.counts s.lastTime lock) :)

theorem lastTime_flush (s : Session) (lock : Option (UInt64 × Int64)) :
    (s.flush lock).lastTime = s.lastTime :=
  (congrArg lastTime (s.flush_withNotes s.counts s.lastTime lock) :)

theorem lastTime_lockEvent (s : Session) (e : Event) (op : LockOp) (irqSync : IrqSync)
    (flags : UInt32) : (s.lockEvent e op irqSync flags).1.lastTime = s.lastTime := by
  unfold lockEvent
  split
  · rfl
  · split <;> rfl

theorem lastTime_flushedLockEvent (s : Session) (e : Event) (op : LockOp) (irqSync : IrqSync)
    (flags : UInt32) : (s.flushedLockEvent e op irqSync flags).1.lastTime = s.lastTime := by
  unfold flushedLockEvent
  split
  · rfl
  · rw [lastTime_lockEvent, lastTime_flush]

theorem lastTime_freeEvent (s : Session) (e : Event) : (s.freeEvent e).lastTime = s.lastTime := by
  unfold freeEvent
  simp only
  split <;> rfl

theorem lastTime_step (s : Session) (e : Event) :
    (s.step e).1.lastTime = max s.lastTime e.time := by
  unfold step
  simp only
  split
  · rfl
  · exact (s.note e).lastTime_flush none
  · exact (lastTime_freeEvent _ e).trans ((s.note e).lastTime_flush none)
  · exact (s.note e).lastTime_flushedLockEvent e _ _ _
  · exact (s.note e).lastTime_flushedLockEvent e _ _ _

/-! ### Runs -/

theorem run_cons {s s' : Session} {e : Event} (h : s.step e = (s', none)) (es : List Event) :
    s.run (e :: es) = s'.run es := by
  rw [run, h]

theorem run_cons_of_stop {s s' : Session} {e : Event} {cause : Fatal}
    (h : s.step e = (s', some cause)) (es : List Event) : s.run (e :: es) = (s', some cause) := by
  rw [run, h]

theorem run_singleton (s : Session) (e : Event) : s.run [e] = s.step e := by
  cases hstep : s.step e with
  | mk s' stop => cases stop <;> simp [run, hstep]

theorem run_concat {start s : Session} {es : List Event} (h : start.run es = (s, none))
    (e : Event) : start.run (es ++ [e]) = s.step e := by
  induction es generalizing start with
  | nil =>
    cases h
    exact s.run_singleton e
  | cons e' es ih =>
    rw [List.cons_append]
    unfold run at h ⊢
    split at h
    · exact ih h
    · cases h

/-- A run that stops nowhere did not stop before its end either. -/
theorem exists_of_run_append {start s : Session} {es es' : List Event}
    (h : start.run (es ++ es') = (s, none)) :
    ∃ s₁, start.run es = (s₁, none) ∧ s₁.run es' = (s, none) := by
  induction es generalizing start with
  | nil => exact ⟨start, rfl, h⟩
  | cons e es ih =>
    rw [List.cons_append] at h
    cases hstep : start.step e with
    | mk s' stop =>
      cases stop with
      | none =>
        rw [run_cons hstep] at h ⊢
        exact ih h
      | some cause =>
        rw [run_cons_of_stop hstep] at h
        cases h

theorem exists_of_run_concat {start s : Session} {es : List Event} {e : Event}
    (h : start.run (es ++ [e]) = (s, none)) :
    ∃ s₁, start.run es = (s₁, none) ∧ s₁.step e = (s, none) := by
  obtain ⟨s₁, hrun, hstep⟩ := exists_of_run_append h
  exact ⟨s₁, hrun, s₁.run_singleton e ▸ hstep⟩

/-- The session that has followed the first `n` events. -/
def upTo (start : Session) (es : List Event) (n : Nat) : Session := (start.run (es.take n)).1

theorem upTo_concat (start : Session) {es : List Event} {n : Nat} (hn : n ≤ es.length) (e : Event) :
    start.upTo (es ++ [e]) n = start.upTo es n := by
  unfold upTo
  rw [List.take_append_of_le_length hn]

theorem upTo_length {start s : Session} {es : List Event} (h : start.run es = (s, none)) :
    start.upTo es es.length = s := by
  unfold upTo
  rw [List.take_length, h]

/-- Every event that is followed has a property in the session that meets it. -/
def EachFollowed (s : Session) (Q : Session → Event → Prop) (es : List Event) : Prop :=
  ∀ earlier e later, es = earlier ++ e :: later → (s.run earlier).2 = none → Q (s.run earlier).1 e

theorem eachFollowed_nil (Q : Session → Event → Prop) (s : Session) : s.EachFollowed Q [] := by
  intro earlier e later h
  simp at h

theorem eachFollowed_cons {Q : Session → Event → Prop} {s : Session} {e : Event}
    {es : List Event} :
    s.EachFollowed Q (e :: es) ↔
      Q s e ∧ ∀ s', s.step e = (s', none) → s'.EachFollowed Q es := by
  constructor
  · refine fun hall => ⟨hall [] e es rfl rfl, ?_⟩
    intro s' hstep earlier e' later heq hnone
    have hrest := hall (e :: earlier) e' later (congrArg _ heq)
    rw [run_cons hstep] at hrest
    exact hrest hnone
  · rintro ⟨hfirst, hrest⟩ (_ | ⟨e₀, earlier⟩) e' later heq hnone
    · cases heq
      exact hfirst
    · cases heq
      cases hstep : s.step e with
      | mk s' stop =>
        cases stop with
        | none =>
          rw [run_cons hstep] at hnone ⊢
          exact hrest s' hstep earlier e' later rfl hnone
        | some cause =>
          rw [run_cons_of_stop hstep] at hnone
          cases hnone

/-- What each event keeps is kept by a run. -/
theorem run_induction {P : Session → Prop} {s : Session} {es : List Event}
    (hstep : ∀ {s : Session}, ∀ e ∈ es, P s → P (s.step e).1) (h : P s) : P (s.run es).1 := by
  induction es generalizing s with
  | nil => exact h
  | cons e es ih =>
    have hfirst := hstep e List.mem_cons_self h
    have hrest : ∀ {s : Session}, ∀ e' ∈ es, P s → P (s.step e').1 :=
      fun e' he' => hstep e' (List.mem_cons_of_mem _ he')
    unfold Session.run
    split
    · next heq =>
      rw [heq] at hfirst
      exact ih hrest hfirst
    · next heq =>
      rw [heq] at hfirst
      exact hfirst

end Session

/-! ### Properties of the monitor -/

/-- A property that an event at the given time keeps, whatever it makes a session do to its
    monitor. -/
structure Monitor.KeptAt (time : UInt64) (P : Monitor → Prop) : Prop where
  plain : ∀ {m : Monitor} {os : List Output}, P m → (∀ o ∈ os, o.Plain) → P (m.withOutputs os)
  unseen : ∀ {m : Monitor} (lock : String) (op : LockOp) (time : UInt64) (ctx : Int64), P m →
    P (m.report (.operation .noRunningTxn lock op time ctx))
  access : ∀ {m : Monitor} (ctx : Int64) (row : AccessRow), P m →
    P ((m.countAccess ctx).write (.access row))
  withLock : ∀ {m : Monitor} (address : UInt64) (label : String) (kind : LockKind)
    (flags : UInt32) (placement : Placement), m.locks.find? address = none → P m →
    P (m.withLock address label kind flags placement)
  freeRange : ∀ {m : Monitor} (base size time : UInt64), P m → P (m.freeRange base size time).2
  operate : ∀ {m : Monitor} (key : Nat) (t : Transition), t.time = time → P m → P (m.step key t).1

namespace Monitor.KeptAt

variable {time : UInt64} {P : Monitor → Prop} {s : Session}

theorem freeEvent (hP : KeptAt time P) (h : P s.monitor) (e : Event) :
    P (s.freeEvent e).monitor := by
  have hplain : P (s.monitor.withOutputs (s.heap.free e.address e.time).outputs) :=
    hP.plain h (Session.plain_free s.heap e.address e.time)
  unfold Session.freeEvent
  simp only
  split
  · exact hplain
  · exact hP.freeRange _ _ _ hplain

/-- The sessions whose monitor has the property keep it. -/
theorem session (hP : KeptAt time P) : Session.KeptAt time fun s => P s.monitor where
  same h hmonitor _ := by
    rw [hmonitor]
    exact h
  unseen lock op ctx h := hP.unseen lock op time ctx h
  access a h := hP.access a.ctx _ h
  withLock address label kind flags hnew h := hP.withLock address label kind flags _ hnew h
  operate key t ht h := hP.operate key t ht h
  alloc e size h := hP.plain h (Session.plain_allocate _ e.address size e.typeName e.time)
  free e h := hP.freeEvent h e

/-- What comes from closing all transactions may be another property. -/
theorem finish {Q : Monitor → Prop} (hP : KeptAt time P) (h : P s.monitor)
    (hclose : ∀ {m : Monitor}, P m → Q (m.closeAll s.lastTime))
    (hplain : ∀ {m : Monitor} {os : List Output}, Q m → (∀ o ∈ os, o.Plain) →
      Q (m.withOutputs os)) :
    Q s.finish.monitor := by
  obtain ⟨os, os', hos, hos', heq⟩ := s.finish_eq
  rw [heq, s.lastTime_flush]
  exact hplain (hclose (hP.plain (hP.session.flush h none) hos)) hos'

end Monitor.KeptAt

/-- A property that the events of all times keep, whatever they make a session do to its
    monitor. -/
def Monitor.Kept (P : Monitor → Prop) : Prop := ∀ time, KeptAt time P

namespace Monitor.Kept

variable {P : Monitor → Prop} {s : Session}

theorem flush (hP : Kept P) (h : P s.monitor) (lock : Option (UInt64 × Int64)) :
    P (s.flush lock).monitor :=
  (hP 0).session.flush h lock

theorem event (hP : Kept P) (h : P s.monitor) (e : Event) : P (s.step e).1.monitor :=
  (hP e.time).session.event h

theorem run (hP : Kept P) (h : P s.monitor) (es : List Event) : P (s.run es).1.monitor :=
  Session.run_induction (P := fun s => P s.monitor) (fun e _ h => hP.event h e) h

/-- What comes from closing all transactions may be another property. -/
theorem finish {Q : Monitor → Prop} (hP : Kept P) (h : P s.monitor)
    (hclose : ∀ {m : Monitor} (time : UInt64), P m → Q (m.closeAll time))
    (hplain : ∀ {m : Monitor} {os : List Output}, Q m → (∀ o ∈ os, o.Plain) →
      Q (m.withOutputs os)) :
    Q s.finish.monitor :=
  (hP 0).finish h (hclose s.lastTime) hplain

end Monitor.Kept

end LockTrace
