import LockTrace.Proofs.Sessions

/-!
# Two monitors side by side

What an operation does is decided by little of the monitor: by its lock, by the context that
holds it and by the number of its transactions (`Monitor.SameView`). If two monitors agree on
these, the operation changes both in the same way, so that a relation that every single change
keeps is kept by the whole operation (`Monitor.Relates.step`).

If they agree on all locks and stacks, they stay together along a whole trace
(`Monitor.Paired.run`).
-/

namespace LockTrace

namespace Monitor

/-- Two monitors show the same to an operation on a lock in a context. -/
structure SameView (key : Nat) (ctx : Int64) (m m' : Monitor) : Prop where
  lock : m'.locks.get? key = m.locks.get? key
  holder : ∀ side, m'.holder? key side ctx = m.holder? key side ctx
  count : ∀ side, m'.countAnchored key side = m.countAnchored key side

/-- A relation that both of two monitors can undergo the changes of an operation in. -/
structure Relates (key : Nat) (t : Transition) (R : Monitor → Monitor → Prop) : Prop where
  view : ∀ {m m'}, R m m' → SameView key t.ctx m m'
  report : ∀ {m m'} (i : Inconsistency), i.AboutOperation → R m m' → R (m.report i) (m'.report i)
  modifyLock : ∀ {m m'} (f : Lock → Lock), R m m' → R (m.modifyLock key f) (m'.modifyLock key f)
  openTxn : ∀ {m m'}, R m m' →
    R (m.openTxn key t.op.side t.ctx t.time) (m'.openTxn key t.op.side t.ctx t.time)
  closeTxn : ∀ {m m'} (side : Side) (owner : Int64) (purge : Bool),
    m.holder? key side t.ctx = some owner → R m m' →
    R (m.closeTxn key side owner t.time purge).2 (m'.closeTxn key side owner t.time purge).2

namespace Relates

variable {key : Nat} {t : Transition} {R : Monitor → Monitor → Prop} {m m' : Monitor}

theorem mismatch (hR : Relates key t R) (h : R m m') (fault : OperationFault) (lock : String) :
    R (m.report (t.mismatch fault lock)) (m'.report (t.mismatch fault lock)) :=
  hR.report _ trivial h

theorem closeAnywhere (hR : Relates key t R) (h : R m m') (side : Side) (purge : Bool) :
    (m'.closeAnywhere key side t.ctx t.time purge).1 =
        (m.closeAnywhere key side t.ctx t.time purge).1 ∧
      R (m.closeAnywhere key side t.ctx t.time purge).2
        (m'.closeAnywhere key side t.ctx t.time purge).2 := by
  have hview := hR.view h
  constructor
  · rw [closeAnywhere_found, closeAnywhere_found, hview.count]
  · unfold Monitor.closeAnywhere
    rw [hview.holder]
    cases hholder : m.holder? key side t.ctx with
    | none => exact h
    | some owner => exact hR.closeTxn side owner purge hholder h

theorem closeSide (hR : Relates key t R) (h : R m m') (side : Side) (rounds : Nat) :
    R (Monitor.closeSide key side t.ctx t.time rounds m)
      (Monitor.closeSide key side t.ctx t.time rounds m') := by
  induction rounds generalizing m m' with
  | zero => exact h
  | succ rounds ih =>
    obtain ⟨hfound, hclosed⟩ := hR.closeAnywhere h side true
    unfold Monitor.closeSide
    cases heq : m.closeAnywhere key side t.ctx t.time true with
    | mk found m₁ =>
      cases heq' : m'.closeAnywhere key side t.ctx t.time true with
      | mk found' m₁' =>
        rw [heq, heq'] at hfound hclosed
        cases hfound
        cases found with
        | true => exact ih hclosed
        | false => exact hclosed

theorem evict (hR : Relates key t R) (h : R m m') (lock : Lock) :
    R (m.evict key lock t) (m'.evict key lock t) := by
  have hreported := hR.mismatch h .otherSideHeld (lock.describe t.op.side)
  obtain ⟨hfound, hclosed⟩ := hR.closeAnywhere hreported t.op.side.other true
  unfold Monitor.evict
  simp only [hfound]
  split
  · rw [(hR.view hclosed).count]
    exact hR.closeSide hclosed _ _
  · have hfailed := hR.mismatch hclosed .flushFailed (lock.describe t.op.side)
    rw [(hR.view hfailed).count]
    exact hR.closeSide hfailed _ _

theorem preempt (hR : Relates key t R) (h : R m m') {live lock : Lock}
    (hlive : m.locks.get? key = some live) : R (m.preempt key lock t) (m'.preempt key lock t) := by
  have hevict := hR.evict h lock
  have hlive' : m'.locks.get? key = some live := (hR.view h).lock.trans hlive
  rw [preempt_of_get? (by rw [locks_evict, hlive]), preempt_of_get? (by rw [locks_evict, hlive'])]
  split
  · exact hR.modifyLock _ hevict
  · exact hR.report _ trivial (hR.modifyLock _ hevict)

theorem missedRelease (hR : Relates key t R) (h : R m m') (lock : Lock) :
    R (m.missedRelease key lock t) (m'.missedRelease key lock t) := by
  have hreported := hR.mismatch h .alreadyHeld (lock.describe t.op.side)
  obtain ⟨hfound, hclosed⟩ := hR.closeAnywhere hreported t.op.side false
  unfold Monitor.missedRelease
  simp only [hfound]
  split
  · exact hR.modifyLock _ hclosed
  · exact hclosed

theorem beginHold (hR : Relates key t R) (h : R m m') :
    R (m.beginHold key t) (m'.beginHold key t) :=
  hR.openTxn (hR.modifyLock _ h)

theorem acquire (hR : Relates key t R) (h : R m m') {live : Lock} (lock : Lock)
    (hlive : m.locks.get? key = some live) :
    R (m.acquire key lock t).1 (m'.acquire key lock t).1 ∧
      (m'.acquire key lock t).2 = (m.acquire key lock t).2 := by
  unfold Monitor.acquire
  split
  · exact ⟨h, rfl⟩
  · exact ⟨hR.beginHold (hR.preempt h hlive), rfl⟩
  · split
    · exact ⟨hR.beginHold h, rfl⟩
    · exact ⟨hR.beginHold (hR.missedRelease h lock), rfl⟩
  · exact ⟨hR.beginHold h, rfl⟩
  · exact ⟨hR.beginHold h, rfl⟩

theorem closeReleased (hR : Relates key t R) (h : R m m') (lock : Lock) :
    R (m.closeReleased key lock t) (m'.closeReleased key lock t) := by
  unfold Monitor.closeReleased
  simp only [(hR.view h).holder]
  split
  · exact hR.mismatch h _ _
  · cases hholder : m.holder? key t.op.side t.ctx with
    | none => exact hR.mismatch h _ _
    | some owner =>
      have hanchor := hasAnchor_of_holder? hholder
      have hanchor' := hasAnchor_of_holder? (((hR.view h).holder t.op.side).trans hholder)
      simp only [closeTxn_found, decide_eq_true hanchor, decide_eq_true hanchor', if_true]
      exact hR.modifyLock _ (hR.closeTxn _ owner false hholder h)

theorem release (hR : Relates key t R) (h : R m m') (lock : Lock) :
    R (m.release key lock t) (m'.release key lock t) := by
  have hclosed := hR.closeReleased h lock
  rw [release_eq, release_eq]
  split
  · exact hR.mismatch hclosed _ _
  · exact hR.modifyLock _ hclosed

/-- An operation keeps two monitors related, and stops in both or in neither. -/
theorem step (hR : Relates key t R) (h : R m m') :
    R (m.step key t).1 (m'.step key t).1 ∧ (m'.step key t).2 = (m.step key t).2 := by
  unfold Monitor.step
  rw [(hR.view h).lock]
  cases hget : m.locks.get? key with
  | none => exact ⟨h, rfl⟩
  | some lock =>
    have hflags := hR.modifyLock (·.setFlags t.flags) h
    have hlive : (m.modifyLock key (·.setFlags t.flags)).locks.get? key =
        some (lock.setFlags t.flags) := LockStore.get?_modify_self _ hget
    simp only
    split
    · cases t.op with
      | acquire side => exact hR.acquire hflags _ hlive
      | release side => exact ⟨hR.release hflags _, rfl⟩
    · exact ⟨hR.mismatch hflags _ _, rfl⟩

end Relates

end Monitor

/-! ### Monitors that agree -/

/-- The transaction at whose end an output is brought forth, as its row, as the row of a sub-lock
    that it held, or as the report that such a row is missing. -/
def Output.endOf? : Output → Option Nat
  | .record (.txn row) => some row.id
  | .record (.held row) => some row.txn
  | .report (.anchor .lockNotHeld _ _ txn) => some txn
  | .report (.anchor .missingPosition _ _ txn) => some txn
  | .report (.danglingLock _ txn) => some txn
  | _ => none

/-- An output that has nothing to do with the end of a transaction. -/
structure Output.Aside (o : Output) : Prop where
  quiet : o.Quiet
  endOf? : o.endOf? = none

theorem Output.Plain.aside {o : Output} (h : o.Plain) : o.Aside := by
  refine ⟨h.quiet, ?_⟩
  cases o with
  | record r => cases r <;> first | rfl | exact h.elim
  | report i => cases i <;> first | rfl | exact h.elim
  | remark r => rfl

theorem Inconsistency.AboutOperation.aside {i : Inconsistency} (h : i.AboutOperation) :
    (Output.report i).Aside := by
  refine ⟨trivial, ?_⟩
  cases i <;> first | rfl | exact h.elim

namespace Monitor

/-- Two monitors have the same locks and the same stacks. -/
structure Alike (m m' : Monitor) : Prop where
  locks : m'.locks = m.locks
  running : m'.running = m.running
  txnIds : m'.txnIds = m.txnIds

theorem Alike.stack {m m' : Monitor} (h : Alike m m') (ctx : Int64) :
    m'.stack ctx = m.stack ctx := by
  unfold Monitor.stack
  rw [h.running]

theorem Alike.setStack {m m' : Monitor} (h : Alike m m') (ctx : Int64) (s : TxnStack) :
    Alike (m.setStack ctx s) (m'.setStack ctx s) := by
  refine ⟨h.locks, ?_, h.txnIds⟩
  unfold Monitor.setStack
  rw [h.running]

theorem Alike.openTxn {m m' : Monitor} (h : Alike m m') (key : Nat) (side : Side) (ctx : Int64)
    (time : UInt64) : Alike (m.openTxn key side ctx time) (m'.openTxn key side ctx time) := by
  unfold Monitor.openTxn
  simp only [h.txnIds]
  have hstack := h.stack ctx
  unfold Monitor.stack at hstack ⊢
  rw [hstack]
  apply Alike.setStack
  exact ⟨h.locks, h.running, rfl⟩

theorem Alike.closeTxn {m m' : Monitor} (h : Alike m m') (key : Nat) (side : Side) (ctx : Int64)
    (time : UInt64) (purge : Bool) :
    Alike (m.closeTxn key side ctx time purge).2 (m'.closeTxn key side ctx time purge).2 := by
  obtain ⟨stats, heq⟩ := m.closeTxn_eq key side ctx time purge
  obtain ⟨stats', heq'⟩ := m'.closeTxn_eq key side ctx time purge
  rw [heq, heq', h.stack, h.txnIds]
  apply Alike.setStack
  exact ⟨h.locks, h.running, rfl⟩

theorem Alike.countAccess {m m' : Monitor} (h : Alike m m') (ctx : Int64) :
    Alike (m.countAccess ctx) (m'.countAccess ctx) := by
  unfold Monitor.countAccess
  rw [h.stack]
  exact h.setStack ctx _

theorem Alike.sameView {m m' : Monitor} (h : Alike m m') (key : Nat) (ctx : Int64) :
    SameView key ctx m m' where
  lock := by rw [h.locks]
  holder side := by
    unfold holder?
    rw [h.stack, h.running]
  count side := by
    unfold countAnchored
    rw [h.running]

/-- A relation that two monitors that agree keep, whatever a session does to both. -/
structure Paired (R : Monitor → Monitor → Prop) : Prop where
  alike : ∀ {m m'}, R m m' → Alike m m'
  outputs : ∀ {m m'} {os : List Output}, R m m' → (∀ o ∈ os, o.Aside) →
    R (m.withOutputs os) (m'.withOutputs os)
  locks : ∀ {m m'} (locks : LockStore), R m m' →
    R { m with locks := locks } { m' with locks := locks }
  openTxn : ∀ {m m'} (key : Nat) (side : Side) (ctx : Int64) (time : UInt64), R m m' →
    R (m.openTxn key side ctx time) (m'.openTxn key side ctx time)
  closeTxn : ∀ {m m'} (key : Nat) (side : Side) (ctx : Int64) (time : UInt64) (purge : Bool),
    R m m' → R (m.closeTxn key side ctx time purge).2 (m'.closeTxn key side ctx time purge).2
  access : ∀ {m m'} (ctx : Int64) (row : AccessRow), row.txn = (m.innermost? ctx).map Txn.id →
    R m m' → R ((m.countAccess ctx).write (.access row)) ((m'.countAccess ctx).write (.access row))

namespace Paired

variable {R : Monitor → Monitor → Prop} {m m' : Monitor}

theorem output (hR : Paired R) (h : R m m') {o : Output} (ho : o.Aside) :
    R (m.withOutputs [o]) (m'.withOutputs [o]) :=
  hR.outputs h (List.forall_mem_singleton.mpr ho)

theorem relates (hR : Paired R) (key : Nat) (t : Transition) : Relates key t R where
  view h := (hR.alike h).sameView key t.ctx
  report i hi h := hR.output h hi.aside
  modifyLock {m m'} f h := by
    have hlocks : m'.modifyLock key f = { m' with locks := m.locks.modify key f } := by
      unfold Monitor.modifyLock
      rw [(hR.alike h).locks]
    rw [hlocks]
    exact hR.locks (m.locks.modify key f) h
  openTxn h := hR.openTxn key t.op.side t.ctx t.time h
  closeTxn side owner purge _ h := hR.closeTxn key side owner t.time purge h

theorem withLock (hR : Paired R) (h : R m m') (address : UInt64) (label : String) (kind : LockKind)
    (flags : UInt32) (placement : Placement) :
    R (m.withLock address label kind flags placement)
      (m'.withLock address label kind flags placement) := by
  have hrows : ∀ o ∈ lockRows ((m.locks.newLock address label kind placement).setFlags flags),
      o.Aside := by
    intro o ho
    refine ⟨quiet_of_mem_lockRows ho, ?_⟩
    obtain ⟨_, _, rfl⟩ := List.mem_map.mp ho
    rfl
  have hcreated := hR.locks ((m.locks.create address label kind placement).store.modify
    m.locks.keys.next (·.setFlags flags)) (hR.outputs h hrows)
  have hsame : m'.withLock address label kind flags placement =
      { m'.withOutputs
          (lockRows ((m.locks.newLock address label kind placement).setFlags flags)) with
        locks := (m.locks.create address label kind placement).store.modify m.locks.keys.next
          (·.setFlags flags) } := by
    unfold Monitor.withLock
    rw [(hR.alike h).locks]
    rfl
  rw [hsame]
  exact hcreated

/-- A look-up finds or creates the same lock in both, or fails in both. -/
theorem findOrCreate (hR : Paired R) (h : R m m') (address : UInt64) (label : String)
    (flags : UInt32) (place : UInt64 → Placement) :
    (∃ cause, m.findOrCreate address label flags place = .error cause ∧
      m'.findOrCreate address label flags place = .error cause) ∨
    ∃ key m₁ m₁', m.findOrCreate address label flags place = .ok (key, m₁) ∧
      m'.findOrCreate address label flags place = .ok (key, m₁') ∧ R m₁ m₁' := by
  have hlocks := (hR.alike h).locks
  rcases m.findOrCreate_cases address label flags place with
    ⟨key, hfind, heq⟩ | ⟨kind, hfind, hlabel, heq⟩ | ⟨hfind, hlabel, heq⟩
  all_goals rcases m'.findOrCreate_cases address label flags place with
    ⟨key', hfind', heq'⟩ | ⟨kind', hfind', hlabel', heq'⟩ | ⟨hfind', hlabel', heq'⟩
  all_goals rw [hlocks, hfind] at hfind'
  case inl.inl =>
    cases hfind'
    exact Or.inr ⟨key, m, m', heq, heq', h⟩
  case inr.inl.inr.inl =>
    cases hlabel.symm.trans hlabel'
    rw [hlocks] at heq'
    exact Or.inr ⟨_, _, _, heq, heq', hR.withLock h address label kind flags (place address)⟩
  case inr.inr.inr.inr => exact Or.inl ⟨_, heq, heq'⟩
  case inr.inl.inr.inr => cases hlabel.symm.trans hlabel'
  case inr.inr.inr.inl => cases hlabel.symm.trans hlabel'
  all_goals cases hfind'

theorem freeRange (hR : Paired R) (h : R m m') (base size time : UInt64) :
    R (m.freeRange base size time).2 (m'.freeRange base size time).2 := by
  have hreports : ∀ o ∈ (m.locks.freeRange base size time).reports.map Output.report, o.Aside := by
    intro o ho
    obtain ⟨i, hi, rfl⟩ := List.mem_map.mp ho
    obtain ⟨_, _, hi⟩ := List.mem_filterMap.mp hi
    obtain ⟨lock, _, hi⟩ := Option.bind_eq_some_iff.mp hi
    unfold LockStore.freedReport? at hi
    split at hi
    · cases hi
      exact ⟨trivial, rfl⟩
    · cases hi
  have hfreed := hR.locks (m.locks.freeRange base size time).store (hR.outputs h hreports)
  have hsame : (m'.freeRange base size time).2 =
      { m'.withOutputs ((m.locks.freeRange base size time).reports.map .report) with
        locks := (m.locks.freeRange base size time).store } := by
    unfold Monitor.freeRange
    rw [(hR.alike h).locks]
    rfl
  rw [hsame]
  exact hfreed

theorem closeContext (hR : Paired R) (ctx : Int64) (time : UInt64) (rounds : Nat) (h : R m m') :
    R (Monitor.closeContext ctx time rounds m) (Monitor.closeContext ctx time rounds m') := by
  induction rounds generalizing m m' with
  | zero => exact h
  | succ rounds ih =>
    unfold Monitor.closeContext
    rw [(hR.alike h).stack]
    cases m.stack ctx with
    | nil => exact h
    | cons top below =>
      exact ih (hR.closeTxn top.lock top.side ctx time false (hR.output h ⟨trivial, rfl⟩))

theorem closeAll (hR : Paired R) (h : R m m') (time : UInt64) :
    R (m.closeAll time) (m'.closeAll time) := by
  have hall : ∀ (ctxs : List Int64) {m m' : Monitor}, R m m' →
      R (ctxs.foldl (fun m ctx => Monitor.closeContext ctx time (m.stack ctx).length m) m)
        (ctxs.foldl (fun m ctx => Monitor.closeContext ctx time (m.stack ctx).length m) m') := by
    intro ctxs
    induction ctxs with
    | nil => exact fun h => h
    | cons ctx ctxs ih =>
      intro m m' h
      rw [List.foldl_cons, List.foldl_cons, (hR.alike h).stack]
      exact ih (hR.closeContext ctx time _ h)
  unfold Monitor.closeAll
  rw [(hR.alike h).running]
  exact hall m.running.keys h

/-! ### Sessions -/

variable {s : Session}

theorem writeAccess (hR : Paired R) (h : R s.monitor m') (a : PendingAccess) :
    ∃ m₁, ({ s with monitor := m' } : Session).writeAccess a =
      { s.writeAccess a with monitor := m₁ } ∧ R (s.writeAccess a).monitor m₁ := by
  have hinnermost : m'.innermost? a.ctx = s.monitor.innermost? a.ctx := by
    unfold innermost?
    rw [(hR.alike h).stack]
  have hrow : ({ s with monitor := m' } : Session).accessRow a = s.accessRow a := by
    unfold Session.accessRow
    simp only [hinnermost]
  have hwritten : ({ s with monitor := m' } : Session).writeAccess a =
      { s.writeAccess a with
        monitor := (m'.countAccess a.ctx).write (.access (s.accessRow a)) } := by
    unfold Session.writeAccess
    rw [hrow]
  exact ⟨_, hwritten, hR.access a.ctx _ rfl h⟩

theorem flush (hR : Paired R) (h : R s.monitor m') (lock : Option (UInt64 × Int64)) :
    ∃ m₁, ({ s with monitor := m' } : Session).flush lock = { s.flush lock with monitor := m₁ } ∧
      R (s.flush lock).monitor m₁ := by
  have hall : ∀ (as : List PendingAccess) {s : Session} {m' : Monitor}, R s.monitor m' →
      ∃ m₁, as.foldl Session.writeAccess { s with monitor := m' } =
        { as.foldl Session.writeAccess s with monitor := m₁ } ∧
          R (as.foldl Session.writeAccess s).monitor m₁ := by
    intro as
    induction as with
    | nil => exact fun h => ⟨_, rfl, h⟩
    | cons a as ih =>
      intro s m' h
      obtain ⟨m₁, heq, h₁⟩ := hR.writeAccess h a
      rw [List.foldl_cons, List.foldl_cons, heq]
      exact ih h₁
  exact hall _ (s := { s with pending := [], discarded := _ }) h

theorem lockEvent (hR : Paired R) (h : R s.monitor m') (e : Event) (op : LockOp)
    (irqSync : IrqSync) (flags : UInt32) :
    ∃ m₁, ({ s with monitor := m' } : Session).lockEvent e op irqSync flags =
      ({ (s.lockEvent e op irqSync flags).1 with monitor := m₁ },
        (s.lockEvent e op irqSync flags).2) ∧ R (s.lockEvent e op irqSync flags).1.monitor m₁ := by
  have hlocks := (hR.alike h).locks
  unfold Session.lockEvent
  simp only [hlocks]
  split
  · exact ⟨_, rfl, hR.output h ⟨trivial, rfl⟩⟩
  · have hplace : ({ s with monitor := m' } : Session).place = s.place := rfl
    rw [hplace]
    rcases hR.findOrCreate h e.address e.typeName flags s.place with
      ⟨cause, heq, heq'⟩ | ⟨key, m₁, m₁', heq, heq', h₁⟩
    · simp only [heq, heq']
      exact ⟨_, rfl, h⟩
    · simp only [heq, heq']
      obtain ⟨hstep, hstop⟩ := (hR.relates key
        ⟨op, e.ctx, e.time, s.stripSite e.site, e.preemptCount, irqSync, flags⟩).step h₁
      exact ⟨_, Prod.ext rfl hstop, hstep⟩

theorem flushedLockEvent (hR : Paired R) (h : R s.monitor m') (e : Event) (op : LockOp)
    (irqSync : IrqSync) (flags : UInt32) :
    ∃ m₁, ({ s with monitor := m' } : Session).flushedLockEvent e op irqSync flags =
      ({ (s.flushedLockEvent e op irqSync flags).1 with monitor := m₁ },
        (s.flushedLockEvent e op irqSync flags).2) ∧
      R (s.flushedLockEvent e op irqSync flags).1.monitor m₁ := by
  unfold Session.flushedLockEvent
  split
  · exact ⟨_, rfl, h⟩
  · obtain ⟨m₁, heq, h₁⟩ := hR.flush h (some (e.address, e.ctx))
    rw [heq]
    exact hR.lockEvent h₁ e op irqSync flags

theorem allocEvent (hR : Paired R) (h : R s.monitor m') (e : Event) (size : UInt64) :
    ∃ m₁, ({ s with monitor := m' } : Session).allocEvent e size =
      { s.allocEvent e size with monitor := m₁ } ∧ R (s.allocEvent e size).monitor m₁ :=
  ⟨_, rfl, hR.outputs h fun o ho =>
    (Session.plain_allocate s.heap e.address size e.typeName e.time o ho).aside⟩

theorem freeEvent (hR : Paired R) (h : R s.monitor m') (e : Event) :
    ∃ m₁, ({ s with monitor := m' } : Session).freeEvent e =
      { s.freeEvent e with monitor := m₁ } ∧ R (s.freeEvent e).monitor m₁ := by
  have hfree := hR.outputs h fun o ho => (Session.plain_free s.heap e.address e.time o ho).aside
  unfold Session.freeEvent
  simp only
  split
  · exact ⟨_, rfl, hfree⟩
  · exact ⟨_, rfl, hR.freeRange hfree _ _ _⟩

/-- An event keeps two sessions together that differ in their monitors only, and is the last one
    for both or for neither. -/
theorem event (hR : Paired R) (h : R s.monitor m') (e : Event) :
    ∃ m₁, ({ s with monitor := m' } : Session).step e =
      ({ (s.step e).1 with monitor := m₁ }, (s.step e).2) ∧ R (s.step e).1.monitor m₁ := by
  have hnote : R (s.note e).monitor m' := h
  have hsame : ({ s with monitor := m' } : Session).note e = { s.note e with monitor := m' } := rfl
  unfold Session.step
  simp only [hsame]
  split
  · exact ⟨_, rfl, h⟩
  · obtain ⟨m₁, heq, h₁⟩ := hR.flush hnote none
    obtain ⟨m₂, heq₂, h₂⟩ := hR.allocEvent h₁ e _
    exact ⟨m₂, by rw [heq, heq₂], h₂⟩
  · obtain ⟨m₁, heq, h₁⟩ := hR.flush hnote none
    obtain ⟨m₂, heq₂, h₂⟩ := hR.freeEvent h₁ e
    exact ⟨m₂, by rw [heq, heq₂], h₂⟩
  · exact hR.flushedLockEvent hnote e _ _ _
  · exact hR.flushedLockEvent hnote e _ _ _

theorem run (hR : Paired R) (h : R s.monitor m') (es : List Event) :
    ∃ m₁, ({ s with monitor := m' } : Session).run es =
      ({ (s.run es).1 with monitor := m₁ }, (s.run es).2) ∧ R (s.run es).1.monitor m₁ := by
  induction es generalizing s m' with
  | nil => exact ⟨m', rfl, h⟩
  | cons e es ih =>
    obtain ⟨m₁, heq, h₁⟩ := hR.event h e
    unfold Session.run
    rw [heq]
    cases hstep : s.step e with
    | mk s₁ stop =>
      rw [hstep] at h₁
      cases stop with
      | none => exact ih h₁
      | some cause => exact ⟨m₁, rfl, h₁⟩

theorem finish (hR : Paired R) (h : R s.monitor m') :
    ∃ m₁, ({ s with monitor := m' } : Session).finish = { s.finish with monitor := m₁ } ∧
      R s.finish.monitor m₁ := by
  obtain ⟨m₁, heq, h₁⟩ := hR.flush h none
  have hidle : m₁.isIdle = (s.flush none).monitor.isIdle := by
    unfold isIdle
    rw [(hR.alike h₁).running]
  have hplain : ∀ o ∈ (s.flush none).heap.finish.outputs ++ [Output.record .flush], o.Aside :=
    fun o ho => (Session.plain_finish (s.flush none).heap o ho).aside
  unfold Session.finish
  simp only [heq, hidle]
  split
  · exact ⟨_, rfl, hR.outputs (hR.closeAll h₁ _) hplain⟩
  · have hclosing := hR.output h₁ (o := .remark (.closing (s.flush none).lastTime)) ⟨trivial, rfl⟩
    exact ⟨_, rfl, hR.outputs (hR.closeAll hclosing _) hplain⟩

end Paired

end Monitor

end LockTrace
