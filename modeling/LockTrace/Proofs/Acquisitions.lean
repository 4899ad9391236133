import LockTrace.Proofs.Preemption
import LockTrace.Proofs.Releases

/-!
# What an acquisition leaves

An acquisition may find its lock free or shared, held by a writer once more, or held by the
other side, and makes up for what the trace has missed in a different way each time. What it
leaves is a consistent lock all the same: the other side is free, the new position is the
latest one, and the new transaction is the innermost of its context (`Monitor.Begins`). The
holds from before stay, unless a missed release ends one of them or the lock is taken away
(`Monitor.Acquires`).

A writer that is found again without the flag for it has to give up one of its holds. That
there is a transaction to go with this hold, if only in another context, is due to stacks and
counts being in step. The flag comes with the operation, so the lock may have been taken
several times before, and in several contexts.
-/

namespace LockTrace

namespace Monitor

/-! ### The hold that begins -/

/-- A hold of the side began on a lock that nobody of the other side holds any more. The lock
    was `lock` and is `lock'`, and `id` is the number of the transaction for the hold. -/
structure Begins (m m' : Monitor) (key : Nat) (lock lock' : Lock) (t : Transition)
    (id : Nat) : Prop where
  get? : m'.locks.get? key = some lock'
  same : lock.Same lock'
  flags : lock'.flags = t.flags
  free : lock'.count t.op.side.other = 0
  latest : lock'.history.head? = some ⟨⟨t.time, t.site, t.preemptCount, t.irqSync⟩, t.op.side⟩
  innermost : m'.innermost? t.ctx = some (Txn.opened id t.time key t.op.side)
  issued : m.txnIds.next ≤ id ∧ id + 1 = m'.txnIds.next
  others : ∀ k, k ≠ key → m'.locks.get? k = m.locks.get? k

/-- The stacks with one more transaction in the context `ctx`. -/
def onTop (left : Int64 → TxnStack) (ctx : Int64) (txn : Txn) : Int64 → TxnStack :=
  fun c => if c = ctx then txn :: left c else left c

theorem stack_beginHold (m : Monitor) (key : Nat) (t : Transition) :
    (m.beginHold key t).stack =
      onTop m.stack t.ctx (Txn.opened m.txnIds.next t.time key t.op.side) := by
  funext c
  unfold beginHold onTop
  rw [stack_openTxn]
  by_cases hc : c = t.ctx
  · rw [if_pos hc, if_pos hc.symm, hc]
    rfl
  · rw [if_neg hc, if_neg (Ne.symm hc)]
    rfl

theorem begins_beginHold {m mid : Monitor} {key : Nat} {lock live : Lock} {t : Transition}
    (hget : mid.locks.get? key = some live) (hsame : lock.Same live) (hflags : live.flags = t.flags)
    (hfree : live.count t.op.side.other = 0) (hnext : m.txnIds.next ≤ mid.txnIds.next)
    (hothers : ∀ k, k ≠ key → mid.locks.get? k = m.locks.get? k) :
    m.Begins (mid.beginHold key t) key lock (live.beginHold t.position) t mid.txnIds.next where
  get? := LockStore.get?_modify_self _ hget
  same := hsame.trans (live.same_beginHold t.position)
  flags := (Lock.flags_beginHold _ _).trans hflags
  free := by
    have hside : t.position.side ≠ t.op.side.other := (Side.other_ne t.op.side).symm
    rw [Lock.count_beginHold, if_neg hside, hfree]
  latest := rfl
  innermost := by
    unfold innermost?
    rw [stack_beginHold, onTop, if_pos rfl]
    rfl
  issued := ⟨hnext, rfl⟩
  others k hk := (LockStore.get?_modify_of_ne hk _ _).trans (hothers k hk)

theorem count_beginHold_position (l : Lock) (t : Transition) :
    (l.beginHold t.position).count t.op.side = l.count t.op.side + 1 := by
  have hside : t.position.side = t.op.side := rfl
  rw [Lock.count_beginHold, if_pos hside]

/-! ### The holds before it -/

/-- A lock was acquired. By what the acquisition found, the holds of the side are one more
    (`joins`), or as many as before because a missed release was made up for (`replaces`), or
    the new one only (`takesOver`). -/
structure Acquires (m m' : Monitor) (key : Nat) (lock lock' : Lock) (t : Transition)
    (id : Nat) : Prop extends m.Begins m' key lock lock' t id where
  joins : lock.count t.op.side.other = 0 →
    t.op.side = .reader ∨ lock.count t.op.side = 0 ∨ t.flags &&& 1 ≠ 0 →
    lock'.count t.op.side = lock.count t.op.side + 1 ∧ lock'.history.tail = lock.history ∧
      m'.stack = onTop m.stack t.ctx (Txn.opened id t.time key t.op.side)
  replaces : t.op.side = .writer → 0 < lock.count t.op.side → t.flags &&& 1 = 0 →
    lock'.count t.op.side = lock.count t.op.side ∧ lock'.history.tail = lock.history.tail ∧
      ∃ owner left, m.Owns key t.op.side t.ctx owner ∧ m.Ends key t.op.side owner t.time left ∧
        m'.stack = onTop left t.ctx (Txn.opened id t.time key t.op.side)
  takesOver : 0 < lock.count t.op.side.other →
    lock'.count t.op.side = 1 ∧ lock'.history.tail = [] ∧
      ∀ c, ¬ (m'.stack c).HasAnchor key t.op.side.other

section Acquire

variable {m : Monitor} {key : Nat} {lock : Lock} {t : Transition}

theorem acquires_of_free (hget : m.locks.get? key = some lock) (hflags : lock.flags = t.flags)
    (hfree : lock.count t.op.side.other = 0)
    (hagain : t.op.side = .writer → 0 < lock.count t.op.side → lock.isRecursive = true) :
    m.Acquires (m.beginHold key t) key lock (lock.beginHold t.position) t m.txnIds.next where
  toBegins := begins_beginHold hget (.refl lock) hflags hfree (Nat.le_refl _) fun _ _ => rfl
  joins _ _ := ⟨count_beginHold_position lock t, rfl, m.stack_beginHold key t⟩
  replaces hwriter hheld hflag := by
    have hrecursive := hagain hwriter hheld
    simp [Lock.isRecursive, hflags, hflag] at hrecursive
  takesOver hheld := by omega

theorem InStep.missedRelease_of_held (h : m.InStep) (hget : m.locks.get? key = some lock)
    (hheld : 0 < lock.count t.op.side) :
    ∃ owner, m.Owns key t.op.side t.ctx owner ∧
      m.GivesUp (m.missedRelease key lock t) key lock (lock.popPosition.endHold t.op.side)
        t.op.side owner t.time ∧
      m.txnIds.next ≤ (m.missedRelease key lock t).txnIds.next := by
  obtain ⟨owner, hholder⟩ := h.exists_holder hget hheld t.ctx
  refine ⟨owner, owns_of_holder? hholder, ?_⟩
  obtain ⟨m₁, rfl, ⟨owner', hholder', hanchor, heq⟩ | ⟨hzero, _⟩⟩ :=
    m.missedRelease_cases key lock t
  · cases hholder.symm.trans hholder'
    rw [heq]
    -- the report before it changes neither locks nor stacks nor numbers
    have hgives := (h.report (t.mismatch .alreadyHeld (lock.describe t.op.side))).givesUp hget
      hheld hanchor t.time
    have hnext := (m.report (t.mismatch .alreadyHeld (lock.describe t.op.side))).next_closeTxn key
      t.op.side owner t.time false
    refine ⟨{ hgives with ends := ⟨hgives.ends.split, hgives.ends.elsewhere⟩ }, ?_⟩
    exact Nat.le_trans (Nat.le_add_right _ _) (Nat.le_of_eq hnext.symm)
  · have hnone : m.holder? key t.op.side t.ctx = none := holder?_eq_none_iff.mpr hzero
    cases hholder.symm.trans hnone

/-- The writer has to give up one hold for the new one. -/
theorem InStep.acquires_of_missedRelease (h : m.InStep) (hget : m.locks.get? key = some lock)
    (hflags : lock.flags = t.flags) (hheld : 0 < lock.count t.op.side)
    (hfree : lock.count t.op.side.other = 0) (hwriter : t.op.side = .writer)
    (hflag : t.flags &&& 1 = 0) :
    ∃ id, m.Acquires ((m.missedRelease key lock t).beginHold key t) key lock
      ((lock.popPosition.endHold t.op.side).beginHold t.position) t id := by
  obtain ⟨owner, howns, hgives, hnext⟩ := h.missedRelease_of_held (t := t) hget hheld
  refine ⟨(m.missedRelease key lock t).txnIds.next, ?_⟩
  exact {
    toBegins := by
      refine begins_beginHold hgives.get? hgives.same ((Lock.flags_endHold _ _).trans hflags) ?_
        hnext hgives.others
      rw [hgives.other]
      exact hfree
    joins := by
      rintro _ (hreader | hzero | hset)
      · rw [hwriter] at hreader
        cases hreader
      · omega
      · exact absurd hflag hset
    replaces := by
      intro _ _ _
      refine ⟨?_, ?_, owner, _, howns, hgives.ends, stack_beginHold _ key t⟩
      · rw [count_beginHold_position]
        exact hgives.held
      · exact Lock.history_endHold _ _
    takesOver := by omega }

/-- The other side loses all it has. -/
theorem acquires_of_preempt (hget : m.locks.get? key = some lock)
    (hflags : lock.flags = t.flags) (hfree : lock.count t.op.side = 0)
    (hheld : 0 < lock.count t.op.side.other) :
    ∃ id, m.Acquires ((m.preempt key lock t).beginHold key t) key lock
      ((lock.drain t.op.side.other).beginHold t.position) t id := by
  have hlive : (m.evict key lock t).locks.get? key = some lock := by
    rw [locks_evict]
    exact hget
  obtain ⟨reports, heq⟩ := m.preempt_eq key lock t hlive
  have htakes := takesOver_of_evict hget hfree reports
  rw [← heq] at htakes
  have hdrained := get?_preempt hget t
  refine ⟨(m.preempt key lock t).txnIds.next, ?_⟩
  exact {
    toBegins := by
      refine begins_beginHold hdrained (lock.same_drain t.op.side.other)
        ((Lock.flags_drain _ _).trans hflags) ?_ ?_ ?_
      · rw [Lock.count_drain, if_pos rfl]
      · rw [heq]
        exact m.next_le_evict key lock t
      · intro k hk
        rw [← htakes.others k hk]
        exact (LockStore.get?_modify_of_ne hk _ _).symm
    joins := by omega
    replaces := by omega
    takesOver := by
      intro _
      refine ⟨?_, rfl, htakes.cleared⟩
      rw [count_beginHold_position, Lock.count_drain, if_neg (Side.other_ne _), hfree] }

theorem InStep.acquires (h : m.InStep) (hget : m.locks.get? key = some lock)
    (hflags : lock.flags = t.flags) :
    ∃ lock' id, m.Acquires (m.acquire key lock t).1 key lock lock' t id := by
  rcases m.acquire_cases key lock t with
    ⟨hheld, hother, _⟩ | ⟨hfree, hother, heq⟩ | ⟨hwriter, hheld, hfree, hrec, heq⟩ |
    ⟨hfree, hagain, heq⟩
  · have hfree := (h.oneSided key lock hget).exclusive t.op.side hheld
    omega
  · rw [heq]
    exact ⟨_, acquires_of_preempt hget hflags hfree hother⟩
  · have hflag : t.flags &&& 1 = 0 := by simpa [Lock.isRecursive, hflags] using hrec
    rw [heq]
    exact ⟨_, h.acquires_of_missedRelease hget hflags hheld hfree hwriter hflag⟩
  · rw [heq]
    exact ⟨_, _, acquires_of_free hget hflags hfree hagain⟩

end Acquire

theorem Acquires.of_setFlags {m m' : Monitor} {key : Nat} {lock lock' : Lock} {t : Transition}
    {id : Nat} (h : (m.modifyLock key (·.setFlags t.flags)).Acquires m' key
      (lock.setFlags t.flags) lock' t id) : m.Acquires m' key lock lock' t id where
  get? := h.get?
  same := (lock.same_setFlags t.flags).trans h.same
  flags := h.flags
  free := h.free
  latest := h.latest
  innermost := h.innermost
  issued := h.issued
  others k hk := (h.others k hk).trans (LockStore.get?_modify_of_ne hk _ _)
  joins := by
    have hjoins := h.joins
    rw [Lock.count_setFlags, Lock.count_setFlags] at hjoins
    exact hjoins
  replaces := by
    have hreplaces := h.replaces
    rw [Lock.count_setFlags] at hreplaces
    intro hwriter hheld hflag
    obtain ⟨hcount, hhistory, owner, left, howns, hends, hstack⟩ := hreplaces hwriter hheld hflag
    exact ⟨hcount, hhistory, owner, left, ⟨howns.anchored, howns.own, howns.smallest⟩,
      ⟨hends.split, hends.elsewhere⟩, hstack⟩
  takesOver := by
    have htakes := h.takesOver
    rw [Lock.count_setFlags] at htakes
    exact htakes

/-- After any calls, an acquisition of a side that its lock has goes through. It leaves the side
    held by what was there and itself, unless a missed release or the other side is in the way,
    and its transaction has a number that was never used. -/
theorem step_acquires_of_calls (skipEmpty : Bool) (cs : List Call) {key : Nat} {lock : Lock}
    {t : Transition} {side : Side}
    (hget : ((Monitor.initial skipEmpty).calls cs).locks.get? key = some lock)
    (hop : t.op = .acquire side) (hkind : lock.kind.supports side = true) :
    let m := (Monitor.initial skipEmpty).calls cs
    (m.step key t).2 = none ∧ ∃ lock' id, m.Acquires (m.step key t).1 key lock lock' t id ∧
      id ∉ m.openIds ∧ id ∉ m.closedIds := by
  intro m
  have hm : m.InStep := (InStep.initial skipEmpty).calls cs
  have hconserved : m.Conserved := (HeldOnce.stable.calls (fun ctx h => h.countAccess ctx)
    (.initial skipEmpty) cs).conserved
  have hlive : (m.modifyLock key (·.setFlags t.flags)).locks.get? key =
      some (lock.setFlags t.flags) := LockStore.get?_modify_self _ hget
  have hstep : m.step key t =
      (m.modifyLock key (·.setFlags t.flags)).acquire key (lock.setFlags t.flags) t := by
    rw [step_of_supports hget (by rw [hop]; exact hkind), hop]
  obtain ⟨lock', id, hacquires⟩ := (hm.setFlags key t.flags).acquires (t := t) hlive rfl
  refine ⟨(hm.oneSided.step key t).2, lock', id, ?_, hconserved.unused_of_le hacquires.issued.1⟩
  rw [hstep]
  exact hacquires.of_setFlags

/-- Two contexts take a lock as writers, which its flags allow. The smaller one has taken another
    lock since. -/
def recursiveWrites : List Call :=
  [.locate 0x100 "mutex" 0 fun _ => ⟨none, none⟩,
    .locate 0x200 "spinlock_t" 0 fun _ => ⟨none, none⟩,
    .operate 1 ⟨.acquire .writer, 4, 1, Site.unknown, 0, .none, 1⟩,
    .operate 1 ⟨.acquire .writer, 2, 2, Site.unknown, 0, .none, 1⟩,
    .operate 2 ⟨.acquire .writer, 2, 3, Site.unknown, 0, .none, 0⟩]

/-- A third context takes the lock, and the flags do not allow this any more. -/
def plainWrite : Transition := ⟨.acquire .writer, 9, 5, Site.unknown, 0, .irq, 0⟩

/-- The smaller context loses its hold to the new one. -/
theorem step_acquires_of_recursiveWrites :
    let m := (Monitor.initial true).calls recursiveWrites
    let m' := (m.step 1 plainWrite).1
    (∃ lock lock' id, m.locks.get? 1 = some lock ∧ lock.kind.supports .writer = true ∧
      lock.count .writer = 2 ∧ m.Acquires m' 1 lock lock' plainWrite id ∧
      lock'.count .writer = 2) ∧
    m'.stack 9 = [⟨5, 5, 1, .writer, 0⟩] ∧ m'.stack 4 = [⟨1, 1, 1, .writer, 0⟩] ∧
    m'.stack 2 = [⟨4, 5, 2, .writer, 0⟩] := by
  have hget : ((Monitor.initial true).calls recursiveWrites).locks.get? 1 =
      some ⟨0x100, .writer 1, "mutex", none, none, 1, 0, 2,
        [⟨⟨2, Site.unknown, 0, .none⟩, .writer⟩, ⟨⟨1, Site.unknown, 0, .none⟩, .writer⟩]⟩ := by
    decide +kernel
  obtain ⟨_, lock', id, hacquires, _⟩ := step_acquires_of_calls true recursiveWrites
    hget (show plainWrite.op = .acquire .writer from rfl) rfl
  have hcount := (hacquires.replaces rfl (by decide) (by decide)).1
  exact ⟨⟨_, lock', id, hget, rfl, rfl, hacquires, hcount⟩, by decide +kernel⟩

end Monitor

end LockTrace
