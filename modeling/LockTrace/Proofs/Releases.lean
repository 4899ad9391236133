import LockTrace.Proofs.Faults
import LockTrace.Proofs.Reopenings

/-!
# Whose hold a release ends

A release need not come from the context that holds the lock. The transaction that it ends is
looked for in its own context first, and then in all others, from the smallest on
(`Monitor.Owns`). As long as stacks and counts are in step, a side that is held has such a
transaction. Ending it takes it out of the stack of its owner and no other (`Monitor.Ends`),
and the lock gives up one hold and one position. These are three changes made in three places,
and all else stays (`Monitor.Releases`).
-/

namespace LockTrace

theorem TxnStack.exists_split_of_hasAnchor {s : TxnStack} {key : Nat} {side : Side}
    (h : s.HasAnchor key side) : ∃ above t below, s = above ++ t :: below ∧
      t.AnchoredAt key side ∧ ¬ HasAnchor above key side := by
  induction s with
  | nil =>
    obtain ⟨t, ht, _⟩ := h
    cases ht
  | cons top below ih =>
    by_cases hanchor : top.AnchoredAt key side
    · exact ⟨[], top, below, rfl, hanchor, by simp [HasAnchor]⟩
    · obtain ⟨above, t, rest, rfl, ht, habove⟩ := ih ((hasAnchor_cons.mp h).resolve_left hanchor)
      refine ⟨top :: above, t, rest, rfl, ht, ?_⟩
      rw [hasAnchor_cons]
      exact not_or.mpr ⟨hanchor, habove⟩

/-- A report that is not counted as a fault says that a lock is gone. -/
theorem Output.exists_danglingLock {i : Inconsistency} (h : Output.fault? (.report i) = none) :
    ∃ time txn, i = .danglingLock time txn := by
  cases i <;> first | exact ⟨_, _, rfl⟩ | cases h

namespace Monitor

/-! ### The owner -/

/-- The transaction of a sub-lock that an operation of `ctx` ends is one of `owner`. This is
    `ctx` itself if it has one, and otherwise the smallest context that has one. -/
structure Owns (m : Monitor) (key : Nat) (side : Side) (ctx owner : Int64) : Prop where
  anchored : (m.stack owner).HasAnchor key side
  own : (m.stack ctx).HasAnchor key side → owner = ctx
  smallest : ¬ (m.stack ctx).HasAnchor key side →
    ∀ c, (m.stack c).HasAnchor key side → owner ≤ c

/-- The search goes through the contexts in ascending order and takes the first that fits. -/
theorem owns_of_holder? {m : Monitor} {key : Nat} {side : Side} {ctx owner : Int64}
    (h : m.holder? key side ctx = some owner) : m.Owns key side ctx owner where
  anchored := hasAnchor_of_holder? h
  own hown := by
    rw [holder?_eq_self hown] at h
    exact (Option.some.inj h).symm
  smallest hnone c hc := by
    unfold holder? at h
    rw [if_neg hnone] at h
    obtain ⟨e, hfind, rfl⟩ := Option.map_eq_some_iff.mp h
    obtain ⟨_, before, after, hentries, hbefore⟩ := List.find?_eq_some_iff_append.mp hfind
    have hasc : Ascending (before ++ e :: after) := hentries ▸ m.running.ascending
    have hne : m.stack c ≠ [] := hc.elim fun _ ht => List.ne_nil_of_mem ht.1
    have hmem := AscMap.mem_entries_iff.mpr (get?_running_of_ne_nil hne)
    rw [hentries] at hmem
    -- contexts before the one that is found have no such transaction, and those after it are larger
    rcases List.mem_append.mp hmem with hmem | hmem
    · have hfails := hbefore _ hmem
      simp [hc] at hfails
    · rcases List.mem_cons.mp hmem with rfl | hmem
      · exact Int64.le_refl _
      · have hafter := (List.pairwise_append.mp hasc).2.1
        exact Int64.le_of_lt ((List.pairwise_cons.mp hafter).1 _ hmem)

/-! ### Ending one hold -/

/-- The stacks `left` are those of `m` without the innermost transaction of `owner` at a
    sub-lock. The ones above it were opened again at `time`, in their order and with the next
    numbers. -/
structure Ends (m : Monitor) (key : Nat) (side : Side) (owner : Int64) (time : UInt64)
    (left : Int64 → TxnStack) : Prop where
  split : ∃ above txn below, m.stack owner = above ++ txn :: below ∧ txn.AnchoredAt key side ∧
    ¬ TxnStack.HasAnchor above key side ∧
    left owner = TxnStack.reopened time m.txnIds.next above ++ below
  elsewhere : ∀ c, c ≠ owner → left c = m.stack c

theorem ends_closeTxn {m : Monitor} {key : Nat} {side : Side} {owner : Int64}
    (hanchor : (m.stack owner).HasAnchor key side) (time : UInt64) :
    m.Ends key side owner time (m.closeTxn key side owner time false).2.stack where
  split := by
    obtain ⟨above, txn, below, hstack, htxn, habove⟩ :=
      TxnStack.exists_split_of_hasAnchor hanchor
    refine ⟨above, txn, below, hstack, htxn, habove, ?_⟩
    rw [stack_closeTxn, if_pos rfl, hstack, TxnStack.unwound_of_split htxn habove]
    rfl
  elsewhere c hc := by
    rw [stack_closeTxn, if_neg (Ne.symm hc)]

/-- A hold of a side was given up, with the transaction of `owner` that went with it and the
    latest position. The lock was `lock` and is `lock'`. -/
structure GivesUp (m m' : Monitor) (key : Nat) (lock lock' : Lock) (side : Side) (owner : Int64)
    (time : UInt64) : Prop where
  ends : m.Ends key side owner time m'.stack
  get? : m'.locks.get? key = some lock'
  same : lock.Same lock'
  held : lock'.count side + 1 = lock.count side
  other : lock'.count side.other = lock.count side.other
  latest : ∃ latest, lock.history = latest :: lock'.history
  others : ∀ k, k ≠ key → m'.locks.get? k = m.locks.get? k

section InStep

variable {m : Monitor} {key : Nat} {lock : Lock} {t : Transition}

theorem InStep.givesUp (h : m.InStep) (hget : m.locks.get? key = some lock) {side : Side}
    (hheld : 0 < lock.count side) {owner : Int64} (hanchor : (m.stack owner).HasAnchor key side)
    (time : UInt64) :
    m.GivesUp ((m.closeTxn key side owner time false).2.modifyLock key
      fun l => l.popPosition.endHold side) key lock (lock.popPosition.endHold side) side owner
      time where
  ends := ends_closeTxn hanchor time
  get? := by
    apply LockStore.get?_modify_self
    rw [locks_closeTxn]
    exact hget
  same := lock.same_popPosition.trans (lock.popPosition.same_endHold side)
  held := by
    rw [Lock.count_endHold, if_pos rfl, Lock.count_popPosition]
    omega
  other := by rw [Lock.count_endHold, if_neg (Side.other_ne _).symm, Lock.count_popPosition]
  latest := by
    obtain ⟨latest, earlier, hhistory⟩ :=
      List.exists_cons_of_ne_nil ((h.tracked key lock hget).history_ne_nil hheld)
    refine ⟨latest, ?_⟩
    rw [Lock.history_endHold]
    simp only [Lock.popPosition, hhistory, List.tail_cons]
  others k hk := by
    refine (LockStore.get?_modify_of_ne hk _ _).trans ?_
    rw [locks_closeTxn]

end InStep

/-! ### One release -/

/-- The release of a side that is held. Nothing is reported but that locks of other
    transactions are gone. -/
structure Releases (m m' : Monitor) (key : Nat) (lock lock' : Lock) (t : Transition)
    (owner : Int64) : Prop extends m.GivesUp m' key lock lock' t.op.side owner t.time where
  flags : lock'.flags = t.flags
  reports : ∃ os, m'.outputs = m.outputs ++ os ∧
    ∀ i, Output.report i ∈ os → ∃ time txn, i = .danglingLock time txn

section Release

variable {m : Monitor} {key : Nat} {lock : Lock} {t : Transition}

/-- With the other side free, no transaction of the lock is in the way of the one that ends. -/
theorem InStep.reports_closeTxn (h : m.InStep) (hget : m.locks.get? key = some lock) {side : Side}
    (hheld : 0 < lock.count side) (owner : Int64) (time : UInt64) :
    ∃ os, (m.closeTxn key side owner time false).2.outputs = m.outputs ++ os ∧
      ∀ i, Output.report i ∈ os → ∃ time txn, i = .danglingLock time txn := by
  have hfree := (h.oneSided key lock hget).exclusive side hheld
  rw [h.counts key lock hget] at hfree
  have hfaults := faults_closeTxn_keep h.grounded hfree owner time
  unfold faults at hfaults
  rw [outputs_closeTxn, List.filterMap_append, List.append_right_eq_self] at hfaults
  refine ⟨_, m.outputs_closeTxn key side owner time false, ?_⟩
  intro i hi
  exact Output.exists_danglingLock (List.filterMap_eq_nil_iff.mp hfaults _ hi)

theorem InStep.releases (h : m.InStep) (hget : m.locks.get? key = some lock)
    (hflags : lock.flags = t.flags) (hheld : 0 < lock.count t.op.side) :
    ∃ owner, m.Owns key t.op.side t.ctx owner ∧
      m.Releases (m.release key lock t) key lock (lock.popPosition.endHold t.op.side) t owner := by
  obtain ⟨owner, hholder, heq⟩ := h.release_of_held hget hheld
  refine ⟨owner, owns_of_holder? hholder, ?_⟩
  rw [heq, modifyLock_modifyLock]
  exact {
    toGivesUp := h.givesUp hget hheld (hasAnchor_of_holder? hholder) t.time
    flags := (Lock.flags_endHold _ _).trans hflags
    reports := h.reports_closeTxn hget hheld owner t.time }

end Release

theorem Releases.of_setFlags {m m' : Monitor} {key : Nat} {lock lock' : Lock} {t : Transition}
    {owner : Int64} (h : (m.modifyLock key (·.setFlags t.flags)).Releases m' key
      (lock.setFlags t.flags) lock' t owner) : m.Releases m' key lock lock' t owner where
  ends := ⟨h.ends.split, h.ends.elsewhere⟩
  get? := h.get?
  same := (lock.same_setFlags t.flags).trans h.same
  held := h.held.trans (lock.count_setFlags t.flags _)
  other := h.other.trans (lock.count_setFlags t.flags _)
  latest := h.latest
  others k hk := (h.others k hk).trans (LockStore.get?_modify_of_ne hk _ _)
  flags := h.flags
  reports := h.reports

/-- After any calls, the release of a side that is held ends a hold of its own context, or else
    of the smallest context that has one, and touches nothing but this hold. -/
theorem step_releases_of_calls (skipEmpty : Bool) (cs : List Call) {key : Nat} {lock : Lock}
    {t : Transition} {side : Side}
    (hget : ((Monitor.initial skipEmpty).calls cs).locks.get? key = some lock)
    (hop : t.op = .release side) (hheld : 0 < lock.count side) :
    let m := (Monitor.initial skipEmpty).calls cs
    (m.step key t).2 = none ∧ ∃ owner lock', m.Owns key side t.ctx owner ∧
      m.Releases (m.step key t).1 key lock lock' t owner := by
  intro m
  have hm : m.InStep := (InStep.initial skipEmpty).calls cs
  have hside : t.op.side = side := by
    rw [hop]
    rfl
  rw [← hside] at hheld ⊢
  have hkind := (hm.oneSided key lock hget).supported t.op.side hheld
  have hlive : (m.modifyLock key (·.setFlags t.flags)).locks.get? key =
      some (lock.setFlags t.flags) := LockStore.get?_modify_self _ hget
  have hstep : m.step key t =
      ((m.modifyLock key (·.setFlags t.flags)).release key (lock.setFlags t.flags) t, none) := by
    rw [step_of_supports hget hkind, hop]
  have hheld' : 0 < (lock.setFlags t.flags).count t.op.side := by
    rw [Lock.count_setFlags]
    exact hheld
  obtain ⟨owner, howns, hreleases⟩ := (hm.setFlags key t.flags).releases hlive rfl hheld'
  rw [hstep]
  exact ⟨rfl, owner, _, ⟨howns.anchored, howns.own, howns.smallest⟩, hreleases.of_setFlags⟩

/-- Three contexts read under one lock. The smallest of them has taken another lock since. -/
def sharedReads : List Call :=
  [.locate 0x100 "rwlock_t" 0 fun _ => ⟨none, none⟩,
    .locate 0x200 "spinlock_t" 0 fun _ => ⟨none, none⟩,
    .operate 1 ⟨.acquire .reader, 7, 1, Site.unknown, 0, .none, 0⟩,
    .operate 1 ⟨.acquire .reader, 2, 2, Site.unknown, 0, .none, 0⟩,
    .operate 1 ⟨.acquire .reader, 5, 3, Site.unknown, 0, .none, 0⟩,
    .operate 2 ⟨.acquire .writer, 2, 4, Site.unknown, 0, .none, 0⟩]

/-- A release by a context that does not hold the lock. -/
def foreignRelease : Transition := ⟨.release .reader, 9, 6, Site.unknown, 0, .none, 0⟩

/-- The smallest context loses its hold, and the transaction on top of it starts anew. -/
theorem step_releases_of_sharedReads :
    let m := (Monitor.initial false).calls sharedReads
    (∃ lock owner lock', m.locks.get? 1 = some lock ∧ lock.count .reader = 3 ∧
      m.Owns 1 .reader 9 owner ∧
      m.Releases (m.step 1 foreignRelease).1 1 lock lock' foreignRelease owner) ∧
    (m.step 1 foreignRelease).1.stack 2 = [⟨5, 6, 2, .writer, 0⟩] := by
  have hget : ((Monitor.initial false).calls sharedReads).locks.get? 1 =
      some ⟨0x100, .both 1 2, "rwlock_t", none, none, 0, 3, 0,
        [⟨⟨3, Site.unknown, 0, .none⟩, .reader⟩, ⟨⟨2, Site.unknown, 0, .none⟩, .reader⟩,
          ⟨⟨1, Site.unknown, 0, .none⟩, .reader⟩]⟩ := by
    decide +kernel
  obtain ⟨_, owner, lock', howns, hreleases⟩ := step_releases_of_calls false sharedReads
    hget (show foreignRelease.op = .release .reader from rfl) (by decide)
  exact ⟨⟨_, owner, lock', hget, rfl, howns, hreleases⟩, by decide +kernel⟩

end Monitor

end LockTrace
