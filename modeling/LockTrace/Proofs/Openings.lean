import LockTrace.Proofs.Deliveries
import LockTrace.Proofs.Faults
import LockTrace.Proofs.Following
import LockTrace.Proofs.Roster
import LockTrace.Proofs.Tallies

/-!
# Which events open a transaction

An acquisition opens one transaction, whatever it has to close before, and nothing else does. Two
kinds of acquisitions open none: those of locks that are left aside, and those of a side that the
lock does not have, which are reported as such (`Monitor.opened_step`). So the events with what
each of them brings forth tell how many transactions were opened (`Session.opened_run`). Those
that are opened again because one below them was closed do not count here.
-/

namespace LockTrace

/-! ### Operations -/

namespace Monitor

variable (m : Monitor) (key : Nat) (lock : Lock) (t : Transition)

theorem opened_closeTxn (side : Side) (ctx : Int64) (time : UInt64) (purge : Bool) :
    (m.closeTxn key side ctx time purge).2.stats.opened = m.stats.opened := by
  rw [stats_closeTxn]
  rfl

theorem opened_closeAll (time : UInt64) : (m.closeAll time).stats.opened = m.stats.opened := by
  apply closeAll_induction (P := fun m' => m'.stats.opened = m.stats.opened)
  · exact fun _ _ _ h => h
  · exact fun m' ctx top below h _ =>
      (m'.opened_closeTxn top.lock top.side ctx time false).trans h
  · rfl

theorem opened_beginHold : (m.beginHold key t).stats.opened = m.stats.opened + 1 := rfl

theorem opened_preempt {m : Monitor} {live : Lock} (hget : m.locks.get? key = some live) :
    (m.preempt key lock t).stats.opened = m.stats.opened := by
  have hlive : (m.evict key lock t).locks.get? key = some live := by rw [locks_evict, hget]
  obtain ⟨reports, heq⟩ := m.preempt_eq key lock t hlive
  have hevict : (m.evict key lock t).stats.opened = m.stats.opened :=
    evict_induction (P := fun m' => m'.stats.opened = m.stats.opened) (fun _ _ h => h)
      (fun m' owner h _ => (m'.opened_closeTxn key _ owner t.time true).trans h) rfl
  rw [heq]
  exact hevict

theorem opened_missedRelease : (m.missedRelease key lock t).stats.opened = m.stats.opened := by
  obtain ⟨m₁, rfl, ⟨owner, _, _, heq⟩ | ⟨_, heq⟩⟩ := m.missedRelease_cases key lock t
  · rw [heq]
    exact opened_closeTxn _ key t.op.side owner t.time false
  · rw [heq]
    rfl

theorem opened_release : (m.release key lock t).stats.opened = m.stats.opened := by
  have hclosed : (m.closeReleased key lock t).stats.opened = m.stats.opened := by
    rcases m.closeReleased_cases key lock t with ⟨owner, _, _, _, heq⟩ | ⟨_, _, heq⟩
    · rw [heq]
      exact m.opened_closeTxn key t.op.side owner t.time false
    · rw [heq]
      rfl
  rw [release_eq]
  split <;> exact hclosed

/-- Whatever is wrong with it, an acquisition opens one transaction. -/
theorem opened_acquire {m : Monitor} {lock : Lock} (hm : m.InStep)
    (hget : m.locks.get? key = some lock) :
    (m.acquire key lock t).1.stats.opened = m.stats.opened + 1 := by
  rcases m.acquire_cases key lock t with
    ⟨hpos, hheld, _⟩ | ⟨_, _, heq⟩ | ⟨_, _, _, _, heq⟩ | ⟨_, _, heq⟩
  · have hzero := (hm.oneSided key lock hget).exclusive t.op.side hpos
    omega
  · rw [heq, opened_beginHold, opened_preempt key lock t hget]
  · rw [heq, opened_beginHold, opened_missedRelease]
  · rw [heq, opened_beginHold]

theorem opened_step_of_release (ht : t.op.isAcquire = false) :
    (m.step key t).1.stats.opened = m.stats.opened := by
  rcases m.step_cases key t with ⟨_, heq⟩ | ⟨_, lock, m₁, _, _, rfl, hcases⟩
  · rw [heq]
  · rcases hcases with ⟨_, hacquire, _⟩ | ⟨_, _, heq⟩ | ⟨_, heq⟩
    · cases ht.symm.trans hacquire
    · rw [heq]
      exact opened_release _ key lock t
    · rw [heq]
      rfl

/-- An acquisition of a live lock opens a transaction if the lock has the side. -/
theorem opened_step {m : Monitor} {lock : Lock} (hm : m.InStep)
    (hget : m.locks.get? key = some lock) (ht : t.op.isAcquire = true) :
    (m.step key t).1.stats.opened =
      m.stats.opened + if lock.kind.supports t.op.side then 1 else 0 := by
  rcases m.step_cases key t with ⟨hnone, _⟩ | ⟨lock₀, _, _, hget', rfl, rfl, hcases⟩
  · cases hget.symm.trans hnone
  cases hget.symm.trans hget'
  rcases hcases with ⟨hkind, _, heq⟩ | ⟨_, hrelease, _⟩ | ⟨hkind, heq⟩
  · have hkind' : lock.kind.supports t.op.side = true := hkind
    rw [heq, if_pos hkind']
    exact opened_acquire key t (hm.setFlags key t.flags) (LockStore.get?_modify_self _ hget)
  · cases ht.symm.trans hrelease
  · have hkind' : ¬ lock.kind.supports t.op.side = true := Bool.eq_false_iff.mp hkind
    rw [heq, if_neg hkind']
    rfl

end Monitor

/-! ### The report that a lock does not have a side -/

theorem OperationFault.eq_unsupportedSide_of_name {fault : OperationFault}
    (h : fault.name = unsupportedSide.name) : fault = unsupportedSide := by
  cases fault <;> first | rfl | exact absurd h (by decide)

theorem Lock.unsupportedSide_mem_faults_iff (l : Lock) (t : Transition) :
    .unsupportedSide ∈ l.faults t ↔ l.kind.supports t.op.side = false := by
  unfold faults
  split
  · next hkind =>
    rw [hkind]
    refine iff_of_false ?_ Bool.noConfusion
    split
    · split
      · simp
      · split <;> simp
    · split
      · split <;> simp
      · simp
  · next hkind => exact iff_of_true List.mem_cons_self (Bool.eq_false_iff.mpr hkind)

/-- Reports that a lock is gone have another name. -/
theorem Output.any_hasName_iff (os : List Output) :
    os.any (hasName OperationFault.unsupportedSide.name) = true ↔
      ∃ i ∈ os.filterMap fault?, i.name = OperationFault.unsupportedSide.name := by
  rw [List.any_eq_true]
  constructor
  · rintro ⟨o, ho, h⟩
    obtain ⟨i, rfl, hname⟩ := exists_of_hasName h
    refine ⟨i, List.mem_filterMap.mpr ⟨_, ho, ?_⟩, hname⟩
    cases i <;> first | rfl | simp [Inconsistency.name, OperationFault.name] at hname
  · rintro ⟨i, hi, hname⟩
    obtain ⟨o, ho, hfault⟩ := List.mem_filterMap.mp hi
    refine ⟨o, ho, ?_⟩
    unfold fault? at hfault
    split at hfault
    · cases hfault
    · cases hfault
      exact decide_eq_true hname
    · cases hfault

/-- Of an operation on a live lock it is reported that the lock does not have the side exactly if
    this is so. -/
theorem Monitor.unsupportedSide_reported_iff {m : Monitor} (hm : m.InStep) {key : Nat}
    {lock : Lock} (hget : m.locks.get? key = some lock) (t : Transition) {os : List Output}
    (hos : (m.step key t).1.faults = m.faults ++ os.filterMap Output.fault?) :
    os.any (Output.hasName OperationFault.unsupportedSide.name) = true ↔
      lock.kind.supports t.op.side = false := by
  obtain ⟨extra, heq, hextra⟩ := faults_step hm hget t
  rw [Output.any_hasName_iff, List.append_cancel_left (hos.symm.trans heq),
    ← lock.unsupportedSide_mem_faults_iff t]
  constructor
  · rintro ⟨i, hi, hname⟩
    rcases List.mem_append.mp hi with hi | hi
    · obtain ⟨fault, hfault, rfl⟩ := List.mem_map.mp hi
      exact OperationFault.eq_unsupportedSide_of_name hname ▸ hfault
    · obtain ⟨_, _, ctx, rfl⟩ := hextra i hi
      simp [Inconsistency.name, OperationFault.name] at hname
  · intro hfault
    exact ⟨_, List.mem_append_left _ (List.mem_map_of_mem hfault), rfl⟩

/-! ### Events -/

/-- The event acquires a lock that is not left aside, and it is not among the outputs that the lock
    does not have the side. -/
def Event.opens (e : Event) (os : List Output) : Bool :=
  e.acquisition?.isSome && !os.any (Output.hasName OperationFault.unsupportedSide.name)

namespace Monitor

/-- A lock that was looked up is live. -/
theorem exists_get?_of_findOrCreate {m m' : Monitor} (hkeyed : m.locks.Keyed) {address : UInt64}
    {label : String} {flags : UInt32} {place : UInt64 → Placement} {key : Nat}
    (h : m.findOrCreate address label flags place = .ok (key, m')) :
    ∃ lock, m'.locks.get? key = some lock := by
  rcases m.findOrCreate_cases address label flags place with
    ⟨k, hfind, heq⟩ | ⟨kind, _, _, heq⟩ | ⟨_, _, heq⟩
  · cases heq.symm.trans h
    obtain ⟨lock, hget, _⟩ := (hkeyed.find_iff address key).mp hfind
    exact ⟨lock, hget⟩
  · cases heq.symm.trans h
    exact ⟨_, (m.get?_withLock ..).trans (if_pos rfl)⟩
  · cases heq.symm.trans h

theorem faults_findOrCreate {m m' : Monitor} {address : UInt64} {label : String} {flags : UInt32}
    {place : UInt64 → Placement} {key : Nat}
    (h : m.findOrCreate address label flags place = .ok (key, m')) : m'.faults = m.faults := by
  rcases findOrCreate_ok h with rfl | ⟨kind, rfl⟩
  · rfl
  · have hnone : (lockRows ((m.locks.newLock address label kind (place address)).setFlags
        flags)).filterMap Output.fault? = [] := by
      apply List.filterMap_eq_nil_iff.mpr
      intro o ho
      obtain ⟨_, _, rfl⟩ := List.mem_map.mp ho
      rfl
    unfold faults
    rw [outputs_withLock, List.filterMap_append, hnone, List.append_nil]

end Monitor

namespace Session

section Flush

variable (s : Session) (lock : Option (UInt64 × Int64))

theorem faults_flush : (s.flush lock).monitor.faults = s.monitor.faults :=
  flush_induction (P := fun m => m.faults = s.monitor.faults)
    (fun m ctx row _ h => by
      have houtputs : ((m.countAccess ctx).write (.access row)).outputs =
          m.outputs ++ [.record (.access row)] := Monitor.outputs_write _ _
      unfold Monitor.faults at h ⊢
      rw [houtputs, List.filterMap_append, h]
      exact List.append_nil _)
    rfl lock

theorem stats_flush : (s.flush lock).monitor.stats = s.monitor.stats :=
  flush_induction (P := fun m => m.stats = s.monitor.stats) (fun _ _ _ _ h => h) rfl lock

end Flush

/-- A lock operation that is no acquisition opens nothing. -/
theorem opened_lockEvent_of_release (s : Session) (e : Event) {op : LockOp}
    (hop : op.isAcquire = false) (irqSync : IrqSync) (flags : UInt32) :
    (s.lockEvent e op irqSync flags).1.monitor.stats.opened = s.monitor.stats.opened := by
  unfold lockEvent
  split
  · rfl
  · cases hfind : s.monitor.findOrCreate e.address e.typeName flags s.place with
    | error cause => rfl
    | ok found =>
      obtain ⟨key, m⟩ := found
      have hsame : m.stats = s.monitor.stats := by
        rcases Monitor.findOrCreate_ok hfind with rfl | ⟨kind, rfl⟩ <;> rfl
      rw [← hsame]
      exact m.opened_step_of_release key _ hop

/-- An acquisition opens a transaction, unless it is reported that the lock does not have the
    side. -/
theorem opened_lockEvent_of_acquire {s s' : Session} (hin : s.monitor.InStep)
    (hkeyed : s.monitor.locks.Keyed) {e : Event} {side : Side} {irqSync : IrqSync}
    {flags : UInt32} (hevent : s.lockEvent e (.acquire side) irqSync flags = (s', none))
    {os : List Output} (hos : s'.monitor.faults = s.monitor.faults ++ os.filterMap Output.fault?) :
    s'.monitor.stats.opened = s.monitor.stats.opened +
      if os.any (Output.hasName OperationFault.unsupportedSide.name) then 0 else 1 := by
  have hacquire : ¬ ((LockOp.acquire side).isAcquire = false ∧
      s.monitor.locks.find? e.address = none) := fun h => Bool.noConfusion h.1
  unfold lockEvent at hevent
  rw [if_neg hacquire] at hevent
  cases hfind : s.monitor.findOrCreate e.address e.typeName flags s.place with
  | error cause =>
    rw [hfind] at hevent
    cases hevent
  | ok found =>
    obtain ⟨key, m⟩ := found
    rw [hfind] at hevent
    obtain ⟨lock, hget⟩ := Monitor.exists_get?_of_findOrCreate hkeyed hfind
    have hsame : m.stats = s.monitor.stats ∧ m.InStep := by
      rcases Monitor.findOrCreate_ok hfind with rfl | ⟨kind, rfl⟩
      · exact ⟨rfl, hin⟩
      · exact ⟨rfl, hin.withLock ..⟩
    obtain ⟨rfl, _⟩ := Prod.mk.inj hevent
    rw [← Monitor.faults_findOrCreate hfind] at hos
    have hreported := Monitor.unsupportedSide_reported_iff hsame.2 hget _ hos
    refine (Monitor.opened_step key _ hsame.2 hget rfl).trans ?_
    rw [hsame.1]
    cases hkind : lock.kind.supports side with
    | true =>
      have hquiet := mt hreported.mp (by simp [LockOp.side, hkind])
      simp [LockOp.side, hkind, hquiet]
    | false => simp [LockOp.side, hkind, hreported.mpr hkind]

theorem opened_flushedLockEvent_of_release (s : Session) (e : Event) {op : LockOp}
    (hop : op.isAcquire = false) (irqSync : IrqSync) (flags : UInt32) :
    (s.flushedLockEvent e op irqSync flags).1.monitor.stats.opened = s.monitor.stats.opened := by
  unfold flushedLockEvent
  split
  · rfl
  · rw [opened_lockEvent_of_release _ e hop, stats_flush]

theorem opened_freeEvent (s : Session) (e : Event) :
    (s.freeEvent e).monitor.stats.opened = s.monitor.stats.opened := by
  unfold freeEvent
  simp only
  split <;> rfl

theorem opened_step_of_no_acquisition (s : Session) {e : Event} (he : e.acquisition? = none) :
    (s.step e).1.monitor.stats.opened = s.monitor.stats.opened := by
  unfold step
  cases hop : e.operation with
  | access kind size => rfl
  | alloc size => exact congrArg Stats.opened ((s.note e).stats_flush none)
  | free =>
    refine (opened_freeEvent _ e).trans ?_
    exact congrArg Stats.opened ((s.note e).stats_flush none)
  | acquire side irqSync flags =>
    have hignored : e.typeName ∈ ignoredTypes := by simpa [Event.acquisition?, hop] using he
    simp only [flushedLockEvent, if_pos hignored]
    rfl
  | release side flags => exact (s.note e).opened_flushedLockEvent_of_release e rfl .none flags

theorem exists_step_of_acquisition (s : Session) {e : Event} (he : e.acquisition? ≠ none) :
    ∃ side irqSync flags, s.step e =
      ((s.note e).flush (some (e.address, e.ctx))).lockEvent e (.acquire side) irqSync flags := by
  unfold Event.acquisition? at he
  split at he
  · next side irqSync flags hop =>
    split at he
    · exact absurd rfl he
    · next hkept =>
      refine ⟨side, irqSync, flags, ?_⟩
      simp only [step, hop, flushedLockEvent, if_neg hkept]
  · exact absurd rfl he

/-- An event opens a transaction exactly if it says so with its outputs. -/
theorem opened_step {s s' : Session} (hin : s.monitor.InStep) (hkeyed : s.monitor.locks.Keyed)
    {e : Event} (hstep : s.step e = (s', none)) :
    s'.monitor.stats.opened = s.monitor.stats.opened +
      if e.opens (s'.journal.since s.journal) then 1 else 0 := by
  cases hacquired : e.acquisition? with
  | none =>
    have hsame := s.opened_step_of_no_acquisition hacquired
    rw [hstep] at hsame
    simpa [Event.opens, hacquired] using hsame
  | some stay =>
    obtain ⟨os, hjournal, _⟩ := s.brings_follow e
    rw [hstep] at hjournal
    have hos : s'.monitor.faults =
        ((s.note e).flush (some (e.address, e.ctx))).monitor.faults ++
          os.filterMap Output.fault? := by
      have hfaults := congrArg (List.filterMap Output.fault?) hjournal
      rw [List.filterMap_append] at hfaults
      rw [faults_flush]
      exact hfaults
    obtain ⟨side, irqSync, flags, heq⟩ := s.exists_step_of_acquisition
      (Option.ne_none_iff_exists'.mpr ⟨stay, hacquired⟩)
    have hopened := opened_lockEvent_of_acquire
      (kept_inStep.flush (s := s.note e) hin _) (kept_keyed.flush (s := s.note e) hkeyed _)
      (heq.symm.trans hstep) hos
    rw [stats_flush] at hopened
    rw [hopened, Journal.since_of_append hjournal, Event.opens, hacquired]
    cases os.any (Output.hasName OperationFault.unsupportedSide.name) <;> rfl

/-! ### Runs -/

/-- The events one after the other, each with the outputs that it brings forth. -/
def followed (s : Session) : List Event → List (Event × List Output)
  | [] => []
  | e :: es => (e, (s.step e).1.journal.since s.journal) :: (s.step e).1.followed es

/-- A run opens as many transactions as it has events that open one. -/
theorem opened_run {s s' : Session} (hin : s.monitor.InStep) (hkeyed : s.monitor.locks.Keyed)
    {es : List Event} (hrun : s.run es = (s', none)) :
    s'.monitor.stats.opened =
      s.monitor.stats.opened + (s.followed es).countP fun followed =>
        followed.1.opens followed.2 := by
  induction es generalizing s with
  | nil =>
    cases hrun
    rfl
  | cons e es ih =>
    cases hstep : s.step e with
    | mk s₁ stop =>
      cases stop with
      | none =>
        have hfirst := opened_step hin hkeyed hstep
        have hin₁ := kept_inStep.event hin e
        have hkeyed₁ := kept_keyed.event hkeyed e
        rw [hstep] at hin₁ hkeyed₁
        rw [run_cons hstep] at hrun
        rw [ih hin₁ hkeyed₁ hrun, hfirst, followed, hstep, List.countP_cons, Nat.add_assoc,
          Nat.add_comm (List.countP ..)]
      | some cause =>
        rw [run_cons_of_stop hstep] at hrun
        cases hrun

theorem opened_finish (s : Session) :
    s.finish.monitor.stats.opened = s.monitor.stats.opened := by
  obtain ⟨os, os', _, _, heq⟩ := s.finish_eq
  have hclosed := Monitor.opened_closeAll ((s.flush none).monitor.withOutputs os)
    (s.flush none).lastTime
  rw [heq]
  refine hclosed.trans ?_
  exact congrArg Stats.opened (s.stats_flush none)

end Session

end LockTrace
