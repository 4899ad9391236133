import LockTrace.Proofs.Immediacy
import LockTrace.Proofs.Openings

/-!
# Releases of what is not held

A trace may release a lock that was never seen, a side that the lock has not, or a side that
nobody holds. In a damaged trace the other side of the same lock can be held at this moment,
with positions and transactions of its own, and these must not be taken for those of the
release. They are not: a side without holds has no transaction in any context, so that there
is nothing to close, and without a transaction neither a position nor a hold is given up
(`Monitor.step_of_unheld`).

What is left of such an event is that the accesses before it are written, the flags of the lock
are set, and the release is reported (`Session.ReportsOnly`).
-/

namespace LockTrace

theorem TxnStack.addAccesses_zero (s : TxnStack) : s.addAccesses 0 = s := by
  cases s <;> rfl

theorem TxnStack.addAccesses_addAccesses (s : TxnStack) (m n : Nat) :
    (s.addAccesses m).addAccesses n = s.addAccesses (m + n) := by
  cases s with
  | nil => rfl
  | cons top below => simp [addAccesses, Nat.add_assoc]

/-! ### What is not held -/

namespace LockStore

/-- Nobody holds the side of a lock at an address. -/
inductive Unheld (s : LockStore) (address : UInt64) (side : Side) : Prop
  | unseen (hfind : s.find? address = none)
  | unsupported {key : Nat} {lock : Lock} (hfind : s.find? address = some key)
      (hget : s.get? key = some lock) (hkind : lock.kind.supports side = false)
  | free {key : Nat} {lock : Lock} (hfind : s.find? address = some key)
      (hget : s.get? key = some lock) (hcount : lock.count side = 0)

theorem Unheld.cases {s : LockStore} {address : UInt64} {side : Side} (h : s.Unheld address side) :
    s.find? address = none ∨ ∃ key lock, s.find? address = some key ∧ s.get? key = some lock ∧
      (lock.kind.supports side = false ∨ lock.count side = 0) := by
  cases h with
  | unseen hfind => exact Or.inl hfind
  | unsupported hfind hget hkind => exact Or.inr ⟨_, _, hfind, hget, Or.inl hkind⟩
  | free hfind hget hcount => exact Or.inr ⟨_, _, hfind, hget, Or.inr hcount⟩

/-- The locks when the flags of the one at an address were set, if there is one. -/
def setFlagsAt (s : LockStore) (address : UInt64) (flags : UInt32) : LockStore :=
  match s.find? address with
  | none => s
  | some key => s.modify key (·.setFlags flags)

section SetFlagsAt

variable {s : LockStore} {address : UInt64}

theorem setFlagsAt_of_find? {key : Nat} (hfind : s.find? address = some key) (flags : UInt32) :
    s.setFlagsAt address flags = s.modify key (·.setFlags flags) := by
  unfold setFlagsAt
  rw [hfind]

theorem setFlagsAt_of_unseen (hfind : s.find? address = none) (flags : UInt32) :
    s.setFlagsAt address flags = s := by
  unfold setFlagsAt
  rw [hfind]

theorem get?_setFlagsAt (s : LockStore) (address : UInt64) (flags : UInt32) (k : Nat) :
    (s.setFlagsAt address flags).get? k = (s.get? k).map fun lock =>
      if s.find? address = some k then { lock with flags := flags } else lock := by
  cases hfind : s.find? address with
  | none =>
    rw [setFlagsAt_of_unseen hfind]
    cases s.get? k <;> rfl
  | some key =>
    rw [setFlagsAt_of_find? hfind, get?_modify]
    by_cases hk : key = k
    · simp only [hk]
      rfl
    · have hne : ¬ some key = some k := fun h => hk (Option.some.inj h)
      simp only [if_neg hk, if_neg hne, Option.map_id']

theorem find?_setFlagsAt (s : LockStore) (address : UInt64) (flags : UInt32) (a : UInt64) :
    (s.setFlagsAt address flags).find? a = s.find? a := by
  unfold setFlagsAt
  split <;> rfl

theorem keys_setFlagsAt (s : LockStore) (address : UInt64) (flags : UInt32) :
    (s.setFlagsAt address flags).keys = s.keys := by
  unfold setFlagsAt
  split <;> rfl

theorem subLockIds_setFlagsAt (s : LockStore) (address : UInt64) (flags : UInt32) :
    (s.setFlagsAt address flags).subLockIds = s.subLockIds := by
  unfold setFlagsAt
  split <;> rfl

end SetFlagsAt

end LockStore

namespace Monitor

/-- A release that its lock refuses sets the flags and reports. -/
theorem step_of_unheld {m : Monitor} (hm : m.InStep) {key : Nat} {lock : Lock} {t : Transition}
    {side : Side} (hget : m.locks.get? key = some lock) (hop : t.op = .release side)
    (hunheld : lock.kind.supports side = false ∨ lock.count side = 0) :
    ∃ faults : List OperationFault, faults ≠ [] ∧
      m.step key t = ((m.modifyLock key (·.setFlags t.flags)).withOutputs
        (faults.map fun fault => .report (t.mismatch fault (lock.describe side))), none) := by
  have hside : t.op.side = side := by
    rw [hop]
    rfl
  cases hkind : lock.kind.supports side with
  | false =>
    rw [← hside] at hkind
    refine ⟨[.unsupportedSide], by simp, ?_⟩
    rw [step_of_not_supports hget hkind, hside]
    rfl
  | true =>
    have hzero : lock.count side = 0 := hunheld.resolve_left (by simp [hkind])
    have hcount := hm.counts key lock hget side
    have hfree : (m.modifyLock key (·.setFlags t.flags)).countAnchored key t.op.side = 0 := by
      rw [hside]
      exact hcount.symm.trans hzero
    rw [← hside] at hkind hzero
    refine ⟨[if lock.history = [] then .emptyHistory else .noRunningTxn, .alreadyReleased],
      by simp, ?_⟩
    rw [step_of_supports hget hkind, hop]
    simp only [release_eq, Lock.count_setFlags, if_pos hzero, closeReleased_of_free hfree]
    rw [hside]
    rfl

end Monitor

namespace Session

def withLocks (s : Session) (locks : LockStore) : Session :=
  { s with monitor := { s.monitor with locks := locks } }

theorem lockEvent_of_unheld {s : Session} (hs : s.monitor.InStep) {e : Event} {side : Side}
    (h : s.monitor.locks.Unheld e.address side) (flags : UInt32) :
    ∃ (faults : List OperationFault) (text : String), faults ≠ [] ∧
      s.lockEvent e (.release side) .none flags =
        ((s.withLocks (s.monitor.locks.setFlagsAt e.address flags)).addOutputs
          (faults.map fun fault => .report (.operation fault text (.release side) e.time e.ctx)),
          none) := by
  unfold lockEvent
  rcases h.cases with hfind | ⟨key, lock, hfind, hget, hunheld⟩
  · refine ⟨[.noRunningTxn], describeUnseen e (.release side), by simp, ?_⟩
    rw [if_pos ⟨rfl, hfind⟩, LockStore.setFlagsAt_of_unseen hfind]
    rfl
  · have hseen : ¬ ((LockOp.release side).isAcquire = false ∧
        s.monitor.locks.find? e.address = none) := by simp [hfind]
    obtain ⟨faults, hne, hstep⟩ := Monitor.step_of_unheld hs hget
      (t := ⟨.release side, e.ctx, e.time, s.stripSite e.site, e.preemptCount, .none, flags⟩)
      rfl hunheld
    refine ⟨faults, lock.describe side, hne, ?_⟩
    rw [if_neg hseen, Monitor.findOrCreate_of_find? hfind, LockStore.setFlagsAt_of_find? hfind]
    simp only [hstep]
    rfl

/-! ### The accesses before it -/

/-- The accesses that a lock operation has written before it, the earliest first. Its own update
    of its lock is not among them. -/
def due (s : Session) (e : Event) : List PendingAccess :=
  (dropOwnUpdate (some (e.address, e.ctx)) s.pending).1.reverse

theorem stack_foldl_writeAccess (as : List PendingAccess) (s : Session) (c : Int64) :
    (as.foldl writeAccess s).monitor.stack c =
      (s.monitor.stack c).addAccesses (as.countP fun a => decide (a.ctx = c)) := by
  induction as generalizing s with
  | nil => exact (TxnStack.addAccesses_zero _).symm
  | cons a as ih =>
    have hwrite : (s.writeAccess a).monitor.stack c =
        if a.ctx = c then (s.monitor.stack a.ctx).addAccesses 1 else s.monitor.stack c :=
      s.monitor.stack_countAccess a.ctx c
    rw [List.foldl_cons, ih, hwrite, List.countP_cons]
    by_cases hc : a.ctx = c
    · simp only [hc, if_true, decide_true, TxnStack.addAccesses_addAccesses, Nat.add_comm]
    · simp only [hc, if_false, decide_false, Bool.false_eq_true, Nat.add_zero]

theorem outputs_foldl_writeAccess (as : List PendingAccess) (s : Session) :
    (as.foldl writeAccess s).monitor.outputs =
      s.monitor.outputs ++
        (s.rowsOf as s.accessIds.next).map fun row => .record (.access row) := by
  induction as generalizing s with
  | nil => exact (List.append_nil _).symm
  | cons a as ih =>
    rw [List.foldl_cons, ih, rowsOf_writeAccess, outputs_writeAccess, List.append_assoc]
    rfl

/-! ### One release -/

/-- An event has written the accesses before it, set the flags of the lock at its address and
    been reported. Of the stacks only the accesses of the innermost transactions are more. -/
structure ReportsOnly (s s' : Session) (e : Event) (side : Side) (flags : UInt32) : Prop where
  stack : ∀ ctx, s'.monitor.stack ctx =
    (s.monitor.stack ctx).addAccesses ((s.due e).countP fun a => decide (a.ctx = ctx))
  locks : ∀ key, s'.monitor.locks.get? key = (s.monitor.locks.get? key).map fun lock =>
    if s.monitor.locks.find? e.address = some key then { lock with flags := flags } else lock
  addresses : ∀ address, s'.monitor.locks.find? address = s.monitor.locks.find? address
  lockKeys : s'.monitor.locks.keys = s.monitor.locks.keys
  subLockIds : s'.monitor.locks.subLockIds = s.monitor.locks.subLockIds
  txnIds : s'.monitor.txnIds = s.monitor.txnIds
  skipEmpty : s'.monitor.skipEmpty = s.monitor.skipEmpty
  stats : s'.monitor.stats = s.monitor.stats
  heap : s'.heap = s.heap
  symbols : s'.symbols = s.symbols
  sourcePrefix : s'.sourcePrefix = s.sourcePrefix
  outputs : ∃ (faults : List OperationFault) (text : String), faults ≠ [] ∧
    s'.monitor.outputs = s.monitor.outputs ++
      ((s.rowsOf (s.due e) s.accessIds.next).map (fun row => .record (.access row)) ++
        faults.map fun fault => .report (.operation fault text (.release side) e.time e.ctx))
  pending : s'.pending = []
  accessIds : s'.accessIds.next = s.accessIds.next + (s.due e).length
  discarded : s'.discarded =
    s.discarded + (dropOwnUpdate (some (e.address, e.ctx)) s.pending).2
  counts : s'.counts = s.counts.record e.operation
  lastTime : s'.lastTime = max s.lastTime e.time

theorem step_of_release {e : Event} {side : Side} {flags : UInt32}
    (hop : e.operation = .release side flags) (hkept : e.typeName ∉ ignoredTypes) (s : Session) :
    s.step e =
      ((s.note e).flush (some (e.address, e.ctx))).lockEvent e (.release side) .none flags := by
  simp only [step, hop, flushedLockEvent, if_neg hkept]

theorem same_flush (s : Session) (lock : Option (UInt64 × Int64)) :
    (s.flush lock).monitor.txnIds = s.monitor.txnIds ∧
      (s.flush lock).monitor.skipEmpty = s.monitor.skipEmpty ∧
      (s.flush lock).symbols = s.symbols :=
  flush_induction_accesses (P := fun s' => s'.monitor.txnIds = s.monitor.txnIds ∧
      s'.monitor.skipEmpty = s.monitor.skipEmpty ∧ s'.symbols = s.symbols)
    (fun _ _ _ h => h) (fun _ => ⟨rfl, rfl, rfl⟩) lock

theorem reportsOnly_of_unheld {s : Session} (hs : s.monitor.InStep) {e : Event} {side : Side}
    {flags : UInt32} (hop : e.operation = .release side flags) (hkept : e.typeName ∉ ignoredTypes)
    (h : s.monitor.locks.Unheld e.address side) :
    (s.step e).2 = none ∧ s.ReportsOnly (s.step e).1 e side flags := by
  -- the session when the event is noted and nothing waits any more, but nothing is written yet
  let opened : Session := { s.note e with
    pending := []
    discarded := s.discarded + (dropOwnUpdate (some (e.address, e.ctx)) s.pending).2 }
  let flushed : Session := (s.due e).foldl writeAccess opened
  have hflush : (s.note e).flush (some (e.address, e.ctx)) = flushed := rfl
  have hin : flushed.monitor.InStep :=
    kept_inStep.flush (s := s.note e) hs (some (e.address, e.ctx))
  have hlocks : flushed.monitor.locks = s.monitor.locks := (s.note e).locks_flush _
  obtain ⟨faults, text, hne, heq⟩ := lockEvent_of_unheld hin (hlocks.symm ▸ h) flags
  obtain ⟨hbeside, hnext⟩ := foldl_writeAccess_beside (s.due e) opened
  obtain ⟨htxnIds, hskipEmpty, hsymbols⟩ := (s.note e).same_flush (some (e.address, e.ctx))
  rw [step_of_release hop hkept, hflush, heq]
  refine ⟨rfl, ?_⟩
  have hafter : ((flushed.withLocks (flushed.monitor.locks.setFlagsAt e.address flags)).addOutputs
      (faults.map fun fault => .report (.operation fault text (.release side) e.time
        e.ctx))).monitor.locks = s.monitor.locks.setFlagsAt e.address flags := by
    rw [← hlocks]
    rfl
  constructor
  case stack => exact stack_foldl_writeAccess (s.due e) opened
  case locks =>
    rw [hafter]
    exact s.monitor.locks.get?_setFlagsAt e.address flags
  case addresses =>
    rw [hafter]
    exact s.monitor.locks.find?_setFlagsAt e.address flags
  case lockKeys =>
    rw [hafter]
    exact s.monitor.locks.keys_setFlagsAt e.address flags
  case subLockIds =>
    rw [hafter]
    exact s.monitor.locks.subLockIds_setFlagsAt e.address flags
  case txnIds => exact htxnIds
  case skipEmpty => exact hskipEmpty
  case stats => exact (s.note e).stats_flush _
  case heap => exact (s.note e).heap_flush _
  case symbols => exact hsymbols
  case sourcePrefix => exact hbeside.sourcePrefix
  case outputs =>
    refine ⟨faults, text, hne, (Monitor.outputs_withOutputs _ _).trans ?_⟩
    have hwritten := outputs_foldl_writeAccess (s.due e) opened
    rw [← List.append_assoc]
    exact congrArg (· ++ _) hwritten
  case pending => exact hbeside.pending
  case accessIds => exact hnext
  case discarded => exact hbeside.discarded
  case counts => exact hbeside.counts
  case lastTime => exact (s.note e).lastTime_flush _

/-! ### Every session -/

/-- The session after some events. An event that was to be the last may have others after it. -/
def after (s : Session) (es : List Event) : Session := es.foldl (fun s e => (s.step e).1) s

theorem inStep_after {s : Session} (hs : s.monitor.InStep) (es : List Event) :
    (s.after es).monitor.InStep := by
  induction es generalizing s with
  | nil => exact hs
  | cons e es ih => exact ih (kept_inStep.event hs e)

/-- After any events, the release of a side that is not held is reported and changes no stack, no
    count and no position. -/
theorem step_reportsOnly_of_unheld (config : Config) (symbols : SymbolTable) (es : List Event)
    {e : Event} {side : Side} {flags : UInt32} (hop : e.operation = .release side flags)
    (hkept : e.typeName ∉ ignoredTypes)
    (h : ((Session.initial config symbols).after es).monitor.locks.Unheld e.address side) :
    let s := (Session.initial config symbols).after es
    (s.step e).2 = none ∧ s.ReportsOnly (s.step e).1 e side flags :=
  reportsOnly_of_unheld (inStep_after (inStep_initial config symbols) es) hop hkept h

/-- A reader holds a lock and has accessed memory. Another context has just updated the lock. -/
def readHeld : List Event :=
  [⟨1, 1, .acquire .reader .none 0, 0x100, "rwlock_t", Site.unknown, 0⟩,
    ⟨2, 1, .access .read 4, 0x308, "", Site.unknown, 0⟩,
    ⟨3, 2, .access .read 4, 0x100, "", Site.unknown, 0⟩,
    ⟨3, 2, .access .write 4, 0x100, "", Site.unknown, 0⟩]

/-- The other context releases the lock as a writer. -/
def lateRelease : Event := ⟨4, 2, .release .writer 1, 0x100, "rwlock_t", Site.unknown, 0⟩

theorem step_reportsOnly_of_readHeld :
    let s := (Session.initial .default ∅).after readHeld
    s.monitor.locks.Unheld 0x100 .writer ∧
      s.ReportsOnly (s.step lateRelease).1 lateRelease .writer 1 ∧
      (s.step lateRelease).1.monitor.stack 1 = [⟨1, 1, 1, .reader, 1⟩] ∧
      (s.step lateRelease).1.discarded = 2 := by
  have hfind : ((Session.initial .default ∅).after readHeld).monitor.locks.find? 0x100 =
      some 1 := by decide +kernel
  have hget : ((Session.initial .default ∅).after readHeld).monitor.locks.get? 1 =
      some ⟨0x100, .both 1 2, "rwlock_t", none, none, 0, 1, 0,
        [⟨⟨1, Site.unknown, 0, .none⟩, .reader⟩]⟩ := by decide +kernel
  have hunheld : ((Session.initial .default ∅).after readHeld).monitor.locks.Unheld 0x100
      .writer := .free hfind hget rfl
  have hstep := step_reportsOnly_of_unheld .default ∅ readHeld (e := lateRelease) rfl (by decide)
    hunheld
  exact ⟨hunheld, hstep.2, by decide +kernel, by decide +kernel⟩

end Session

end LockTrace
