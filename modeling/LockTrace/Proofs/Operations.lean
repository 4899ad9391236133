import LockTrace.Monitor.Step
import LockTrace.Proofs.LiveLocks
import LockTrace.Proofs.Unwinding

/-!
# What lock operations are made of

An acquisition meets its lock in one of four ways (`acquire_cases`). Where it has to close
transactions first, these are closed one by one, and what holds before and is kept by each
of them holds afterwards (`evict_induction`). The same goes for the end of a trace
(`closeAll_induction`). In between only reports are added, and the locks stay as they are
until the counts of the one lock change.
-/

namespace LockTrace

/-- A report that a lock operation makes by itself, and not a transaction that it closes. -/
def Inconsistency.AboutOperation : Inconsistency → Prop
  | .operation .. => True
  | .inconsistentCount .. => True
  | _ => False

/-! ### What stays of a lock -/

namespace Lock

@[simp] theorem count_setFlags (l : Lock) (flags : UInt32) (side : Side) :
    (l.setFlags flags).count side = l.count side := by
  cases side <;> rfl

@[simp] theorem count_popPosition (l : Lock) (side : Side) :
    l.popPosition.count side = l.count side := by
  cases side <;> rfl

@[simp] theorem kind_setCount (l : Lock) (side : Side) (n : Nat) :
    (l.setCount side n).kind = l.kind := by
  cases side <;> rfl

@[simp] theorem kind_beginHold (l : Lock) (p : Position) : (l.beginHold p).kind = l.kind :=
  kind_setCount l p.side _

@[simp] theorem kind_endHold (l : Lock) (side : Side) : (l.endHold side).kind = l.kind :=
  kind_setCount l side _

@[simp] theorem kind_drain (l : Lock) (side : Side) : (l.drain side).kind = l.kind :=
  kind_setCount l side 0

@[simp] theorem flags_setCount (l : Lock) (side : Side) (n : Nat) :
    (l.setCount side n).flags = l.flags := by
  cases side <;> rfl

@[simp] theorem flags_beginHold (l : Lock) (p : Position) : (l.beginHold p).flags = l.flags :=
  flags_setCount l p.side _

@[simp] theorem flags_endHold (l : Lock) (side : Side) : (l.endHold side).flags = l.flags :=
  flags_setCount l side _

@[simp] theorem flags_drain (l : Lock) (side : Side) : (l.drain side).flags = l.flags :=
  flags_setCount l side 0

end Lock

/-- The changes that an operation makes to its lock. -/
inductive Transition.Changes (t : Transition) : (Lock → Lock) → Prop
  | setFlags : t.Changes (·.setFlags t.flags)
  | beginHold : t.Changes (·.beginHold t.position)
  | endHold : t.Changes (·.endHold t.op.side)
  | popPosition : t.Changes Lock.popPosition
  /-- A missed release is made up for. -/
  | takeBack : t.Changes (fun l => l.popPosition.endHold t.op.side)
  | drain : t.Changes (·.drain t.op.side.other)

theorem Transition.Changes.same {t : Transition} {f : Lock → Lock} (h : t.Changes f) (l : Lock) :
    l.Same (f l) := by
  cases h with
  | setFlags => exact l.same_setFlags t.flags
  | beginHold => exact l.same_beginHold t.position
  | endHold => exact l.same_endHold t.op.side
  | popPosition => exact l.same_popPosition
  | takeBack => exact l.same_popPosition.trans (l.popPosition.same_endHold t.op.side)
  | drain => exact l.same_drain t.op.side.other

namespace Monitor

/-! ### Outputs without a change -/

def withOutputs (m : Monitor) (os : List Output) : Monitor :=
  { m with journal := m.journal.addAll os }

theorem report_eq_withOutputs (m : Monitor) (i : Inconsistency) :
    m.report i = m.withOutputs [.report i] := rfl

theorem modifyLock_modifyLock (m : Monitor) (key : Nat) (f g : Lock → Lock) :
    (m.modifyLock key f).modifyLock key g = m.modifyLock key fun lock => g (f lock) := by
  unfold modifyLock
  rw [LockStore.modify_modify]
  rfl

/-! ### Closing transactions one by one -/

section Induction

variable {P : Monitor → Prop}

theorem closeSide_induction {key : Nat} {side : Side} {time : UInt64} (ctx : Int64)
    (hclose : ∀ m owner, P m → (m.stack owner).HasAnchor key side →
      P (m.closeTxn key side owner time true).2)
    (rounds : Nat) {m : Monitor} (hm : P m) : P (closeSide key side ctx time rounds m) := by
  induction rounds generalizing m with
  | zero => exact hm
  | succ rounds ih =>
    unfold closeSide
    rcases m.closeAnywhere_cases key side ctx time true with
      ⟨owner, _, hanchor, heq⟩ | ⟨_, heq⟩
    · have hnext := hclose m owner hm hanchor
      rw [heq]
      split
      · next h =>
        rw [h] at hnext
        exact ih hnext
      · next h =>
        rw [h] at hnext
        exact hnext
    · rw [heq]
      exact hm

/-- As many rounds as there are transactions of the sub-lock close them all. -/
theorem countAnchored_closeSide {key : Nat} {side : Side} {time : UInt64} (ctx : Int64)
    (rounds : Nat) {m : Monitor} (hm : m.countAnchored key side ≤ rounds) :
    (closeSide key side ctx time rounds m).countAnchored key side = 0 := by
  induction rounds generalizing m with
  | zero => exact Nat.le_zero.mp hm
  | succ rounds ih =>
    unfold closeSide
    rcases m.closeAnywhere_cases key side ctx time true with
      ⟨owner, _, hanchor, heq⟩ | ⟨hzero, heq⟩
    · have hfound := m.closeTxn_found key side owner time true
      have hlt := countAnchored_closeTxn_lt hanchor time true
      rw [heq]
      split
      · next h =>
        rw [h] at hlt
        exact ih (Nat.le_of_lt_succ (Nat.lt_of_lt_of_le hlt hm))
      · next h =>
        rw [h, decide_eq_true hanchor] at hfound
        cases hfound
    · rw [heq]
      exact hzero

theorem closeContext_induction {ctx : Int64} {time : UInt64}
    (hremark : ∀ m count, P m → P (m.remark (.stillActive count ctx)))
    (hclose : ∀ m top below, P m → m.stack ctx = top :: below →
      P (m.closeTxn top.lock top.side ctx time false).2)
    (rounds : Nat) {m : Monitor} (hm : P m) : P (closeContext ctx time rounds m) := by
  induction rounds generalizing m with
  | zero => exact hm
  | succ rounds ih =>
    unfold closeContext
    split
    · exact hm
    · next top below hstack =>
      apply ih
      exact hclose _ top below (hremark m _ hm) hstack

/-- What is kept by each closing of an innermost transaction is kept when all are closed. -/
theorem closeAll_induction {time : UInt64}
    (hremark : ∀ m count ctx, P m → P (m.remark (.stillActive count ctx)))
    (hclose : ∀ m ctx top below, P m → m.stack ctx = top :: below →
      P (m.closeTxn top.lock top.side ctx time false).2)
    {m : Monitor} (hm : P m) : P (m.closeAll time) := by
  have hall : ∀ (ctxs : List Int64) (m : Monitor), P m →
      P (ctxs.foldl (fun m ctx => closeContext ctx time (m.stack ctx).length m) m) := by
    intro ctxs
    induction ctxs with
    | nil => exact fun _ hm => hm
    | cons ctx ctxs ih =>
      intro m hm
      apply ih
      exact closeContext_induction (fun m count => hremark m count ctx)
        (fun m => hclose m ctx) _ hm
  exact hall m.running.keys m hm

end Induction

/-! ### Taking a lock away -/

/-- The monitor when the transactions of the side opposite to an acquisition are closed. -/
def evict (m : Monitor) (key : Nat) (lock : Lock) (t : Transition) : Monitor :=
  let other := t.op.side.other
  let desc := lock.describe t.op.side
  let m := m.report (t.mismatch .otherSideHeld desc)
  let (closed, m) := m.closeAnywhere key other t.ctx t.time true
  let m := if closed then m else m.report (t.mismatch .flushFailed desc)
  closeSide key other t.ctx t.time (m.countAnchored key other) m

theorem preempt_of_get? {m : Monitor} {key : Nat} {live lock : Lock} {t : Transition}
    (hlive : (m.evict key lock t).locks.get? key = some live) :
    m.preempt key lock t =
      if live.residual t.op.side.other = 0 then
        (m.evict key lock t).modifyLock key (·.drain t.op.side.other)
      else
        ((m.evict key lock t).modifyLock key (·.drain t.op.side.other)).report
          (.inconsistentCount (live.describe t.op.side.other) t.time
            (live.residual t.op.side.other)) := by
  unfold evict at hlive ⊢
  unfold preempt
  simp only [hlive]

/-- A lock is taken away by closing the transactions of the other side and forgetting its
    holds, with a report if these do not agree. -/
theorem preempt_eq (m : Monitor) (key : Nat) {live : Lock} (lock : Lock) (t : Transition)
    (hlive : (m.evict key lock t).locks.get? key = some live) :
    ∃ reports : List Inconsistency, m.preempt key lock t =
      ((m.evict key lock t).modifyLock key (·.drain t.op.side.other)).withOutputs
        (reports.map .report) := by
  rw [preempt_of_get? hlive]
  split
  · exact ⟨[], rfl⟩
  · exact ⟨[_], rfl⟩

/-- The first transaction to close is found, or there is none and this is reported. Then the
    others are closed. -/
theorem evict_cases (m : Monitor) (key : Nat) (lock : Lock) (t : Transition) :
    ∃ m₁ m₂, m₁ = m.report (t.mismatch .otherSideHeld (lock.describe t.op.side)) ∧
      m.evict key lock t =
        closeSide key t.op.side.other t.ctx t.time (m₂.countAnchored key t.op.side.other) m₂ ∧
      ((∃ owner, (m₁.stack owner).HasAnchor key t.op.side.other ∧
          m₂ = (m₁.closeTxn key t.op.side.other owner t.time true).2) ∨
        (m₁.countAnchored key t.op.side.other = 0 ∧
          m₂ = m₁.report (t.mismatch .flushFailed (lock.describe t.op.side)))) := by
  rcases (m.report (t.mismatch .otherSideHeld (lock.describe t.op.side))).closeAnywhere_cases key
    t.op.side.other t.ctx t.time true with ⟨owner, _, hanchor, heq⟩ | ⟨hzero, heq⟩
  · refine ⟨_, _, rfl, ?_, Or.inl ⟨owner, hanchor, rfl⟩⟩
    simp only [evict, heq, closeTxn_found, decide_eq_true hanchor, if_true]
  · refine ⟨_, _, rfl, ?_, Or.inr ⟨hzero, rfl⟩⟩
    simp only [evict, heq, Bool.false_eq_true, if_false]

theorem evict_induction_mismatch {P : Monitor → Prop} {m : Monitor} {key : Nat} {lock : Lock}
    {t : Transition}
    (hreport : ∀ m fault, P m → P (m.report (t.mismatch fault (lock.describe t.op.side))))
    (hclose : ∀ m owner, P m → (m.stack owner).HasAnchor key t.op.side.other →
      P (m.closeTxn key t.op.side.other owner t.time true).2)
    (hm : P m) : P (m.evict key lock t) := by
  obtain ⟨m₁, m₂, hm₁, heq, hcases⟩ := m.evict_cases key lock t
  have hfirst : P m₁ := hm₁ ▸ hreport m _ hm
  rw [heq]
  apply closeSide_induction t.ctx hclose
  rcases hcases with ⟨owner, hanchor, hm₂⟩ | ⟨_, hm₂⟩
  · rw [hm₂]
    exact hclose m₁ owner hfirst hanchor
  · rw [hm₂]
    exact hreport m₁ _ hfirst

theorem evict_induction {P : Monitor → Prop} {m : Monitor} {key : Nat} {lock : Lock}
    {t : Transition} (hreport : ∀ m i, P m → P (m.report i))
    (hclose : ∀ m owner, P m → (m.stack owner).HasAnchor key t.op.side.other →
      P (m.closeTxn key t.op.side.other owner t.time true).2)
    (hm : P m) : P (m.evict key lock t) :=
  evict_induction_mismatch (fun m _ => hreport m _) hclose hm

@[simp] theorem locks_evict (m : Monitor) (key : Nat) (lock : Lock) (t : Transition) :
    (m.evict key lock t).locks = m.locks := by
  refine evict_induction (P := fun m' => m'.locks = m.locks) ?_ ?_ rfl
  · exact fun m' i hm' => hm'
  · intro m' owner hm' _
    rw [locks_closeTxn]
    exact hm'

@[simp] theorem locks_closeAll (m : Monitor) (time : UInt64) :
    (m.closeAll time).locks = m.locks := by
  refine closeAll_induction (P := fun m' => m'.locks = m.locks) ?_ ?_ rfl
  · exact fun m' count ctx hm' => hm'
  · intro m' ctx top below hm' _
    rw [locks_closeTxn]
    exact hm'

theorem get?_preempt {m : Monitor} {key : Nat} {lock : Lock} (hget : m.locks.get? key = some lock)
    (t : Transition) :
    (m.preempt key lock t).locks.get? key = some (lock.drain t.op.side.other) := by
  have hlive : (m.evict key lock t).locks.get? key = some lock := by
    rw [locks_evict]
    exact hget
  obtain ⟨reports, heq⟩ := m.preempt_eq key lock t hlive
  rw [heq]
  exact LockStore.get?_modify_self _ hlive

/-! ### Making up for a release -/

/-- A missed release closes a transaction and ends its hold, or finds none and changes
    nothing. -/
theorem missedRelease_cases (m : Monitor) (key : Nat) (lock : Lock) (t : Transition) :
    ∃ m₁, m₁ = m.report (t.mismatch .alreadyHeld (lock.describe t.op.side)) ∧
      ((∃ owner, m₁.holder? key t.op.side t.ctx = some owner ∧
          (m₁.stack owner).HasAnchor key t.op.side ∧
          m.missedRelease key lock t =
            (m₁.closeTxn key t.op.side owner t.time false).2.modifyLock key
              (fun l => l.popPosition.endHold t.op.side)) ∨
        (m₁.countAnchored key t.op.side = 0 ∧ m.missedRelease key lock t = m₁)) := by
  refine ⟨_, rfl, ?_⟩
  unfold missedRelease
  rcases (m.report (t.mismatch .alreadyHeld (lock.describe t.op.side))).closeAnywhere_cases key
    t.op.side t.ctx t.time false with ⟨owner, hholder, hanchor, heq⟩ | ⟨hzero, heq⟩
  · refine Or.inl ⟨owner, hholder, hanchor, ?_⟩
    simp only [heq, closeTxn_found, decide_eq_true hanchor, if_true]
  · refine Or.inr ⟨hzero, ?_⟩
    simp only [heq, Bool.false_eq_true, if_false]

theorem get?_missedRelease {m : Monitor} {key : Nat} {lock : Lock}
    (hget : m.locks.get? key = some lock) (t : Transition) :
    ∃ live, (m.missedRelease key lock t).locks.get? key = some live ∧ live.kind = lock.kind ∧
      live.count t.op.side.other = lock.count t.op.side.other := by
  obtain ⟨m₁, hm₁, ⟨owner, _, _, heq⟩ | ⟨_, heq⟩⟩ := m.missedRelease_cases key lock t
  · have hlive : (m₁.closeTxn key t.op.side owner t.time false).2.locks.get? key = some lock := by
      rw [locks_closeTxn, hm₁]
      exact hget
    refine ⟨lock.popPosition.endHold t.op.side, ?_, ?_, ?_⟩
    · rw [heq]
      exact LockStore.get?_modify_self _ hlive
    · exact Lock.kind_endHold _ _
    · rw [Lock.count_endHold, if_neg (Side.other_ne _).symm]
      exact Lock.count_popPosition _ _
  · refine ⟨lock, ?_, rfl, rfl⟩
    rw [heq, hm₁]
    exact hget

/-! ### Acquisitions -/

/-- An acquisition finds both sides held; or the other side, and takes the lock away; or a
    writer that holds the lock already and should have released it; or a lock that it may
    take. -/
theorem acquire_cases (m : Monitor) (key : Nat) (lock : Lock) (t : Transition) :
    (0 < lock.count t.op.side ∧ 0 < lock.count t.op.side.other ∧
      (m.acquire key lock t).1 = m) ∨
    (lock.count t.op.side = 0 ∧ 0 < lock.count t.op.side.other ∧
      m.acquire key lock t = ((m.preempt key lock t).beginHold key t, none)) ∨
    (t.op.side = .writer ∧ 0 < lock.count t.op.side ∧ lock.count t.op.side.other = 0 ∧
      lock.isRecursive = false ∧
      m.acquire key lock t = ((m.missedRelease key lock t).beginHold key t, none)) ∨
    (lock.count t.op.side.other = 0 ∧
      (t.op.side = .writer → 0 < lock.count t.op.side → lock.isRecursive = true) ∧
      m.acquire key lock t = (m.beginHold key t, none)) := by
  unfold acquire Lock.acquireState
  by_cases hheld : 0 < lock.count t.op.side
  · by_cases hother : 0 < lock.count t.op.side.other
    · refine Or.inl ⟨hheld, hother, ?_⟩
      rw [if_pos hheld, if_pos hother]
    · have hfree : lock.count t.op.side.other = 0 := by omega
      rw [if_pos hheld, if_neg hother]
      cases hside : t.op.side with
      | reader =>
        rw [hside] at hfree
        exact Or.inr (Or.inr (Or.inr ⟨hfree, Side.noConfusion, rfl⟩))
      | writer =>
        rw [hside] at hheld hfree
        cases hrec : lock.isRecursive with
        | true => exact Or.inr (Or.inr (Or.inr ⟨hfree, fun _ _ => rfl, by simp⟩))
        | false => exact Or.inr (Or.inr (Or.inl ⟨rfl, hheld, hfree, rfl, by simp⟩))
  · have hzero : lock.count t.op.side = 0 := by omega
    rw [if_neg hheld]
    by_cases hother : 0 < lock.count t.op.side.other
    · refine Or.inr (Or.inl ⟨hzero, hother, ?_⟩)
      rw [if_pos hother]
    · refine Or.inr (Or.inr (Or.inr ⟨by omega, fun _ h => absurd h hheld, ?_⟩))
      rw [if_neg hother]

/-! ### Releases -/

/-- A release closes a transaction and forgets a position, unless there is no position or no
    transaction. -/
theorem closeReleased_cases (m : Monitor) (key : Nat) (lock : Lock) (t : Transition) :
    (∃ owner, lock.history ≠ [] ∧ m.holder? key t.op.side t.ctx = some owner ∧
      (m.stack owner).HasAnchor key t.op.side ∧
      m.closeReleased key lock t =
        (m.closeTxn key t.op.side owner t.time false).2.modifyLock key Lock.popPosition) ∨
    (∃ fault, (lock.history = [] ∨ m.countAnchored key t.op.side = 0) ∧
      m.closeReleased key lock t = m.report (t.mismatch fault (lock.describe t.op.side))) := by
  unfold closeReleased
  cases hhistory : lock.history with
  | nil =>
    exact Or.inr ⟨.emptyHistory, Or.inl rfl, by simp⟩
  | cons p ps =>
    simp only [List.isEmpty_cons, Bool.false_eq_true, if_false]
    cases hholder : m.holder? key t.op.side t.ctx with
    | none => exact Or.inr ⟨_, Or.inr (holder?_eq_none_iff.mp hholder), rfl⟩
    | some owner =>
      have hanchor := hasAnchor_of_holder? hholder
      refine Or.inl ⟨owner, List.cons_ne_nil p ps, rfl, hanchor, ?_⟩
      simp only [closeTxn_found, decide_eq_true hanchor, if_true]

/-- Without a transaction a release only reports, and the positions decide what. -/
theorem closeReleased_of_free {m : Monitor} {key : Nat} {t : Transition}
    (hfree : m.countAnchored key t.op.side = 0) (lock : Lock) :
    m.closeReleased key lock t =
      m.report (t.mismatch (if lock.history = [] then .emptyHistory else .noRunningTxn)
        (lock.describe t.op.side)) := by
  unfold closeReleased
  cases hhistory : lock.history with
  | nil => simp
  | cons p ps => simp [holder?_eq_none_iff.mpr hfree]

theorem release_eq (m : Monitor) (key : Nat) (lock : Lock) (t : Transition) :
    m.release key lock t =
      if lock.count t.op.side = 0 then
        (m.closeReleased key lock t).report
          (t.mismatch .alreadyReleased (lock.describe t.op.side))
      else (m.closeReleased key lock t).modifyLock key (·.endHold t.op.side) := rfl

/-! ### One operation -/

/-- What an operation does to a live lock. The flags are set first. -/
theorem step_cases (m : Monitor) (key : Nat) (t : Transition) :
    (m.locks.get? key = none ∧ m.step key t = (m, none)) ∨
    ∃ lock₀ lock m₁, m.locks.get? key = some lock₀ ∧ lock = lock₀.setFlags t.flags ∧
      m₁ = m.modifyLock key (·.setFlags t.flags) ∧
      ((lock.kind.supports t.op.side = true ∧ t.op.isAcquire = true ∧
          m.step key t = m₁.acquire key lock t) ∨
        (lock.kind.supports t.op.side = true ∧ t.op.isAcquire = false ∧
          m.step key t = (m₁.release key lock t, none)) ∨
        (lock.kind.supports t.op.side = false ∧
          m.step key t =
            (m₁.report (t.mismatch .unsupportedSide (lock.describe t.op.side)), none))) := by
  unfold step
  cases hget : m.locks.get? key with
  | none => exact Or.inl ⟨rfl, rfl⟩
  | some lock₀ =>
    refine Or.inr ⟨lock₀, _, _, rfl, rfl, rfl, ?_⟩
    simp only
    cases hkind : (lock₀.setFlags t.flags).kind.supports t.op.side with
    | false => exact Or.inr (Or.inr ⟨rfl, by simp⟩)
    | true =>
      cases hop : t.op with
      | acquire side => exact Or.inl ⟨rfl, rfl, by simp⟩
      | release side => exact Or.inr (Or.inl ⟨rfl, rfl, by simp⟩)

/-- On a side that the lock has, an operation is carried out once the flags are set. -/
theorem step_of_supports {m : Monitor} {key : Nat} {t : Transition} {lock : Lock}
    (hget : m.locks.get? key = some lock) (hkind : lock.kind.supports t.op.side = true) :
    m.step key t =
      match t.op with
      | .acquire _ =>
        (m.modifyLock key (·.setFlags t.flags)).acquire key (lock.setFlags t.flags) t
      | .release _ =>
        ((m.modifyLock key (·.setFlags t.flags)).release key (lock.setFlags t.flags) t, none) := by
  have hkind' : (lock.setFlags t.flags).kind.supports t.op.side = true := hkind
  unfold step
  simp only [hget]
  refine (if_pos hkind').trans ?_
  cases t.op <;> rfl

/-- On a side that the lock has not, an operation only sets the flags. -/
theorem step_of_not_supports {m : Monitor} {key : Nat} {t : Transition} {lock : Lock}
    (hget : m.locks.get? key = some lock) (hkind : lock.kind.supports t.op.side = false) :
    m.step key t = ((m.modifyLock key (·.setFlags t.flags)).report
      (t.mismatch .unsupportedSide (lock.describe t.op.side)), none) := by
  have hkind' : ¬ (lock.setFlags t.flags).kind.supports t.op.side = true :=
    Bool.eq_false_iff.mp hkind
  unfold step
  simp only [hget]
  exact if_neg hkind'

/-- What is kept by each report on the operation, by each change of the one lock, and when one of
    its transactions is opened or closed, is kept by an operation. -/
theorem step_induction_changes {P : Monitor → Prop} {m : Monitor} {key : Nat} {t : Transition}
    (hreport : ∀ m i, i.AboutOperation → P m → P (m.report i))
    (hmodify : ∀ m f, t.Changes f → P m → P (m.modifyLock key f))
    (hopen : ∀ m, P m → P (m.openTxn key t.op.side t.ctx t.time))
    (hclose : ∀ m side owner purge, P m → (m.stack owner).HasAnchor key side →
      P (m.closeTxn key side owner t.time purge).2)
    (hm : P m) : P (m.step key t).1 := by
  have hmismatch : ∀ m fault lock, P m → P (m.report (t.mismatch fault lock)) :=
    fun m _ _ h => hreport m _ trivial h
  have hbegin : ∀ m, P m → P (m.beginHold key t) :=
    fun m h => hopen _ (hmodify m _ .beginHold h)
  rcases m.step_cases key t with ⟨_, heq⟩ | ⟨lock₀, lock, m₁, hget, hlock, hm₁, hcases⟩
  · rw [heq]
    exact hm
  have hflags : P m₁ := hm₁ ▸ hmodify m _ .setFlags hm
  have hlive : m₁.locks.get? key = some lock := by
    rw [hm₁, hlock]
    exact LockStore.get?_modify_self _ hget
  rcases hcases with ⟨_, _, heq⟩ | ⟨_, _, heq⟩ | ⟨_, heq⟩
  · rw [heq]
    rcases m₁.acquire_cases key lock t with
      ⟨_, _, heq⟩ | ⟨_, _, heq⟩ | ⟨_, _, _, _, heq⟩ | ⟨_, _, heq⟩
    · rw [heq]
      exact hflags
    · have hevict : P (m₁.evict key lock t) :=
        evict_induction_mismatch (fun m fault => hmismatch m fault _)
          (fun m owner => hclose m _ owner true) hflags
      rw [heq, preempt_of_get? (by rw [locks_evict, hlive])]
      have hdrained := hmodify _ _ .drain hevict
      apply hbegin
      split
      · exact hdrained
      · exact hreport _ _ trivial hdrained
    · rw [heq]
      apply hbegin
      obtain ⟨m₂, hm₂, ⟨owner, _, hanchor, heq⟩ | ⟨_, heq⟩⟩ := m₁.missedRelease_cases key lock t
      · have hreported : P m₂ := hm₂ ▸ hmismatch m₁ _ _ hflags
        rw [heq]
        exact hmodify _ _ .takeBack (hclose m₂ _ owner false hreported hanchor)
      · rw [heq, hm₂]
        exact hmismatch m₁ _ _ hflags
    · rw [heq]
      exact hbegin m₁ hflags
  · have hclosed : P (m₁.closeReleased key lock t) := by
      rcases m₁.closeReleased_cases key lock t with ⟨owner, _, _, hanchor, heq⟩ | ⟨_, _, heq⟩
      · rw [heq]
        exact hmodify _ _ .popPosition (hclose m₁ _ owner false hflags hanchor)
      · rw [heq]
        exact hmismatch m₁ _ _ hflags
    rw [heq, release_eq]
    split
    · exact hmismatch _ _ _ hclosed
    · exact hmodify _ _ .endHold hclosed
  · rw [heq]
    exact hmismatch m₁ _ _ hflags

/-- Often it is enough that no change is but of the state of the lock. -/
theorem step_induction {P : Monitor → Prop} {m : Monitor} {key : Nat} {t : Transition}
    (hreport : ∀ m i, i.AboutOperation → P m → P (m.report i))
    (hmodify : ∀ m f, (∀ lock : Lock, lock.Same (f lock)) → P m → P (m.modifyLock key f))
    (hopen : ∀ m, P m → P (m.openTxn key t.op.side t.ctx t.time))
    (hclose : ∀ m side owner purge, P m → (m.stack owner).HasAnchor key side →
      P (m.closeTxn key side owner t.time purge).2)
    (hm : P m) : P (m.step key t).1 :=
  step_induction_changes hreport (fun m f hf => hmodify m f hf.same) hopen hclose hm

/-- An acquisition that finds only the other side held takes the lock away. -/
theorem step_of_otherSideHeld {m : Monitor} {key : Nat} {t : Transition} {lock : Lock} {side : Side}
    (hget : m.locks.get? key = some lock) (hop : t.op = .acquire side)
    (hkind : lock.kind.supports side = true) (hfree : lock.count side = 0)
    (hother : 0 < lock.count side.other) :
    m.step key t =
      (((m.modifyLock key (·.setFlags t.flags)).preempt key (lock.setFlags t.flags) t).beginHold
        key t, none) := by
  have hside : t.op.side = side := by
    rw [hop]
    rfl
  rw [← hside] at hkind hfree hother
  rw [step_of_supports hget hkind, hop]
  rcases (m.modifyLock key (·.setFlags t.flags)).acquire_cases key (lock.setFlags t.flags) t with
    ⟨hheld, _, _⟩ | ⟨_, _, heq⟩ | ⟨_, hheld, _, _, _⟩ | ⟨hnone, _, _⟩
  · rw [Lock.count_setFlags] at hheld
    omega
  · exact heq
  · rw [Lock.count_setFlags] at hheld
    omega
  · rw [Lock.count_setFlags] at hnone
    omega

end Monitor

end LockTrace
