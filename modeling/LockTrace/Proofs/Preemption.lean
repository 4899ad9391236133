import LockTrace.Proofs.InStep

/-!
# Taking a lock away ends

The loop over the transactions of the other side has no bound of its own. Each pass closes one
transaction of the sub-lock and opens those above it again, in whatever context it is, so the
stacks need not get smaller; but the transactions above it are never of the sub-lock, and the
number of its transactions falls (`Clears.exists_of_le`). Hence its only run is a finite one.
What the acquisition leaves does not rest on the stacks and the counts having agreed before
(`step_preempts`).
-/

namespace LockTrace

namespace Monitor

/-! ### The loop without a bound -/

/-- A run of the loop over the transactions of one sub-lock, with the number of its passes.
    It ends when no context has such a transaction, or when one could not be closed. -/
inductive Clears (key : Nat) (side : Side) (ctx : Int64) (time : UInt64) :
    Nat → Monitor → Monitor → Prop
  | done {m : Monitor} (hnone : m.holder? key side ctx = none) : Clears key side ctx time 0 m m
  | stuck {m : Monitor} (hsome : m.holder? key side ctx ≠ none)
      (hfound : (m.closeAnywhere key side ctx time true).1 = false) :
      Clears key side ctx time 0 m (m.closeAnywhere key side ctx time true).2
  | pass {passes : Nat} {m m' : Monitor} (hsome : m.holder? key side ctx ≠ none)
      (hfound : (m.closeAnywhere key side ctx time true).1 = true)
      (hrest : Clears key side ctx time passes (m.closeAnywhere key side ctx time true).2 m') :
      Clears key side ctx time (passes + 1) m m'

theorem Clears.unique {key : Nat} {side : Side} {ctx : Int64} {time : UInt64} {m : Monitor}
    {passes passes' : Nat} {m₁ m₂ : Monitor} (h₁ : Clears key side ctx time passes m m₁)
    (h₂ : Clears key side ctx time passes' m m₂) : passes' = passes ∧ m₂ = m₁ := by
  induction h₁ generalizing passes' with
  | done hnone =>
    cases h₂ with
    | done => exact ⟨rfl, rfl⟩
    | stuck hsome => exact absurd hnone hsome
    | pass hsome => exact absurd hnone hsome
  | stuck hsome hfound =>
    cases h₂ with
    | done hnone => exact absurd hnone hsome
    | stuck => exact ⟨rfl, rfl⟩
    | pass _ hfound' => exact absurd (hfound.symm.trans hfound') Bool.false_ne_true
  | pass hsome hfound _ ih =>
    cases h₂ with
    | done hnone => exact absurd hnone hsome
    | stuck _ hfound' => exact absurd (hfound'.symm.trans hfound) Bool.false_ne_true
    | pass _ _ hrest =>
      obtain ⟨hpasses, hlast⟩ := ih hrest
      exact ⟨congrArg Nat.succ hpasses, hlast⟩

/-- The loop ends from every state, with as many passes as there are transactions at most, and
    that many rounds do what it does. -/
theorem Clears.exists_of_le {key : Nat} {side : Side} {time : UInt64} (ctx : Int64)
    {rounds : Nat} {m : Monitor} (hm : m.countAnchored key side ≤ rounds) :
    ∃ passes, passes ≤ m.countAnchored key side ∧
      Clears key side ctx time passes m (closeSide key side ctx time rounds m) := by
  induction rounds generalizing m with
  | zero =>
    have hzero := Nat.le_zero.mp hm
    exact ⟨0, Nat.zero_le _, .done (holder?_eq_none_iff.mpr hzero)⟩
  | succ rounds ih =>
    rcases m.closeAnywhere_cases key side ctx time true with
      ⟨owner, hholder, hanchor, heq⟩ | ⟨hzero, heq⟩
    · have hlt := countAnchored_closeTxn_lt hanchor time true
      have hfound : (m.closeAnywhere key side ctx time true).1 = true := by
        rw [heq, closeTxn_found, decide_eq_true hanchor]
      have hless : (m.closeAnywhere key side ctx time true).2.countAnchored key side <
          m.countAnchored key side := by
        rw [heq]
        exact hlt
      obtain ⟨passes, hle, hrest⟩ := ih (Nat.le_of_lt_succ (Nat.lt_of_lt_of_le hless hm))
      refine ⟨passes + 1, Nat.lt_of_le_of_lt hle hless, ?_⟩
      have hround : closeSide key side ctx time (rounds + 1) m =
          closeSide key side ctx time rounds (m.closeAnywhere key side ctx time true).2 := by
        rw [closeSide]
        split
        · next h => rw [h]
        · next h =>
          rw [h] at hfound
          cases hfound
      rw [hround]
      exact .pass (by simp [hholder]) hfound hrest
    · have hnone : m.holder? key side ctx = none := holder?_eq_none_iff.mpr hzero
      have hround : closeSide key side ctx time (rounds + 1) m = m := by
        simp only [closeSide, heq]
      rw [hround]
      exact ⟨0, Nat.zero_le _, .done hnone⟩

/-- Where the loop stands first: the disagreement is reported, and one transaction of the other
    side is closed, or it is reported that there is none. -/
def evictFirst (m : Monitor) (key : Nat) (lock : Lock) (t : Transition) : Monitor :=
  let desc := lock.describe t.op.side
  let m := m.report (t.mismatch .otherSideHeld desc)
  let (closed, m) := m.closeAnywhere key t.op.side.other t.ctx t.time true
  if closed then m else m.report (t.mismatch .flushFailed desc)

/-! ### What is left -/

/-- The lock was taken over: the other side has neither a hold nor a transaction, and the side
    of the operation has one hold, one position, and a new transaction. The other locks are as
    they were. -/
structure TakesOver (m : Monitor) (key : Nat) (t : Transition) (m' : Monitor) : Prop where
  cleared : ∀ ctx, ¬ (m'.stack ctx).HasAnchor key t.op.side.other
  held : ∃ lock, m'.locks.get? key = some lock ∧ lock.count t.op.side.other = 0 ∧
    lock.count t.op.side = 1 ∧ lock.history = [t.position]
  innermost : ∃ id, m'.innermost? t.ctx = some (Txn.opened id t.time key t.op.side) ∧
    m.txnIds.next ≤ id ∧ id + 1 = m'.txnIds.next
  others : ∀ k, k ≠ key → m'.locks.get? k = m.locks.get? k

theorem next_le_evict (m : Monitor) (key : Nat) (lock : Lock) (t : Transition) :
    m.txnIds.next ≤ (m.evict key lock t).txnIds.next := by
  refine evict_induction (P := fun m' => m.txnIds.next ≤ m'.txnIds.next) ?_ ?_ (Nat.le_refl _)
  · exact fun m' i hm' => hm'
  · intro m' owner hm' _
    rw [next_closeTxn]
    exact Nat.le_trans hm' (Nat.le_add_right _ _)

section TakesOver

variable {m : Monitor} {key : Nat} {lock : Lock} {t : Transition}

/-- A hold begins on a lock without holds, positions and transactions of the other side. -/
theorem takesOver_beginHold {drained : Monitor}
    (hcleared : drained.countAnchored key t.op.side.other = 0)
    (hget : drained.locks.get? key = some lock) (hfree : ∀ side, lock.count side = 0)
    (hhistory : lock.history = []) (hnext : m.txnIds.next ≤ drained.txnIds.next)
    (hothers : ∀ k, k ≠ key → drained.locks.get? k = m.locks.get? k) :
    TakesOver m key t (drained.beginHold key t) := by
  constructor
  · intro ctx hanchor
    have hcount : (drained.beginHold key t).countAnchored key t.op.side.other = 0 := by
      unfold beginHold
      rw [countAnchored_openTxn, if_neg (fun h => Side.other_ne t.op.side h.2.symm)]
      exact hcleared
    have hpos := TxnStack.countAnchored_pos_iff.mpr hanchor
    have hle := (drained.beginHold key t).countAnchored_stack_le ctx key t.op.side.other
    omega
  · refine ⟨lock.beginHold t.position, LockStore.get?_modify_self _ hget, ?_, ?_, ?_⟩
    · have hside : t.position.side ≠ t.op.side.other := (Side.other_ne t.op.side).symm
      rw [Lock.count_beginHold, if_neg hside, hfree]
    · have hside : t.position.side = t.op.side := rfl
      rw [Lock.count_beginHold, if_pos hside, hfree]
    · rw [Lock.history_beginHold, hhistory]
  · refine ⟨drained.txnIds.next, ?_, hnext, rfl⟩
    unfold beginHold innermost?
    rw [stack_openTxn, if_pos rfl]
    rfl
  · exact fun k hk => (LockStore.get?_modify_of_ne hk _ _).trans (hothers k hk)

/-- Once the other side is closed and drained, the lock is as good as new. -/
theorem takesOver_of_evict (hget : m.locks.get? key = some lock)
    (hfree : lock.count t.op.side = 0) (reports : List Inconsistency) :
    TakesOver m key t ((((m.evict key lock t).modifyLock key (·.drain t.op.side.other)).withOutputs
      (reports.map .report)).beginHold key t) := by
  have hlive : (m.evict key lock t).locks.get? key = some lock := by
    rw [locks_evict]
    exact hget
  have hdrained : ((m.evict key lock t).modifyLock key (·.drain t.op.side.other)).locks.get? key =
      some (lock.drain t.op.side.other) := LockStore.get?_modify_self _ hlive
  refine takesOver_beginHold ?_ hdrained ?_ rfl (m.next_le_evict key lock t) ?_
  · exact m.countAnchored_evict_other key lock t
  · intro side
    rw [Lock.count_drain]
    split
    · rfl
    · next hside =>
      have hown := Side.eq_other_of_ne (Ne.symm hside)
      rw [Side.other_other] at hown
      rw [hown]
      exact hfree
  · intro k hk
    rw [← m.locks_evict key lock t]
    exact LockStore.get?_modify_of_ne hk _ _

end TakesOver

theorem TakesOver.of_setFlags {m m' : Monitor} {key : Nat} {t : Transition}
    (h : TakesOver (m.modifyLock key (·.setFlags t.flags)) key t m') : TakesOver m key t m' where
  cleared := h.cleared
  held := h.held
  innermost := h.innermost
  others k hk := (h.others k hk).trans (LockStore.get?_modify_of_ne hk _ _)

/-- An acquisition that finds only the other side held goes through from every state, also
    where stacks and counts do not agree: the loop over the other side has one run and no other,
    this one ends, and then the lock is taken over. -/
theorem step_preempts {m : Monitor} {key : Nat} {t : Transition} {lock : Lock} {side : Side}
    (hget : m.locks.get? key = some lock) (hop : t.op = .acquire side)
    (hkind : lock.kind.supports side = true) (hfree : lock.count side = 0)
    (hother : 0 < lock.count side.other) :
    let first := (m.modifyLock key (·.setFlags t.flags)).evictFirst key (lock.setFlags t.flags) t
    (∃ passes cleared reports,
      passes ≤ first.countAnchored key side.other ∧
      Clears key side.other t.ctx t.time passes first cleared ∧
      (∀ n m', Clears key side.other t.ctx t.time n first m' → n = passes ∧ m' = cleared) ∧
      m.step key t =
        (((cleared.modifyLock key (·.drain side.other)).withOutputs
          (List.map Output.report reports)).beginHold key t, none)) ∧
    TakesOver m key t (m.step key t).1 := by
  have hside : t.op.side = side := by
    rw [hop]
    rfl
  have hstep := step_of_otherSideHeld hget hop hkind hfree hother
  rw [← hside] at hfree hother ⊢
  intro first
  have hlive : (m.modifyLock key (·.setFlags t.flags)).locks.get? key =
      some (lock.setFlags t.flags) := LockStore.get?_modify_self _ hget
  have hevict := locks_evict (m.modifyLock key (·.setFlags t.flags)) key (lock.setFlags t.flags) t
  obtain ⟨reports, hpreempt⟩ := (m.modifyLock key (·.setFlags t.flags)).preempt_eq key
    (lock.setFlags t.flags) t (hevict ▸ hlive)
  rw [hpreempt] at hstep
  constructor
  · obtain ⟨passes, hle, hclears⟩ : ∃ passes, passes ≤ first.countAnchored key t.op.side.other ∧
        Clears key t.op.side.other t.ctx t.time passes first
          (closeSide key t.op.side.other t.ctx t.time
            (first.countAnchored key t.op.side.other) first) :=
      Clears.exists_of_le t.ctx (Nat.le_refl _)
    exact ⟨passes, _, reports, hle, hclears, fun _ _ hrun => hclears.unique hrun, hstep⟩
  · have hfree' : (lock.setFlags t.flags).count t.op.side = 0 := by
      rw [Lock.count_setFlags]
      exact hfree
    rw [hstep]
    exact TakesOver.of_setFlags (takesOver_of_evict hlive hfree' reports)

/-- Readers hold a lock in two contexts. In the first of these another transaction of the lock
    is opened without a hold, and then another lock is taken. -/
def crowded : Monitor :=
  let acquire (key : Nat) (side : Side) (ctx : Int64) (time : UInt64) : Attempt :=
    .done (.regular (.operate key ⟨.acquire side, ctx, time, Site.unknown, 0, .none, 0⟩))
  (initial false).attempts
    [.done (.regular (.locate 0x100 "rwlock_t" 0 fun _ => ⟨none, none⟩)),
      .done (.regular (.locate 0x200 "spinlock_t" 0 fun _ => ⟨none, none⟩)),
      acquire 1 .reader 1 1, acquire 1 .reader 2 2, .done (.openTxn 1 .reader 1 3),
      acquire 2 .writer 1 4]

def crowdedWrite : Transition := ⟨.acquire .writer, 3, 9, Site.unknown, 0, .none, 0⟩

theorem step_preempts_crowded :
    TakesOver crowded 1 crowdedWrite (crowded.step 1 crowdedWrite).1 ∧
    (crowded.step 1 crowdedWrite).1.stack 1 = [⟨5, 9, 2, .writer, 0⟩] := by
  have hget : crowded.locks.get? 1 = some ⟨0x100, .both 1 2, "rwlock_t", none, none, 0, 2, 0,
      [⟨⟨2, Site.unknown, 0, .none⟩, .reader⟩, ⟨⟨1, Site.unknown, 0, .none⟩, .reader⟩]⟩ := by
    decide +kernel
  refine ⟨(step_preempts (t := crowdedWrite) hget rfl rfl rfl (by decide)).2, ?_⟩
  decide +kernel

end Monitor

end LockTrace
