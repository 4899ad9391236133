import LockTrace.Proofs.HeldListings
import LockTrace.Proofs.OneSided

/-!
# The transactions that a call writes

A call that writes transactions closes them before it changes a lock, but for the flags. So at
the moment at which a transaction is written the locks are those from before the call, and what
is told of the transaction is told of these (`Monitor.heldRows_told_of_attempts`). That a number
stands for one live sub-lock only does not rest on the stacks, and is kept by all attempts
(`Monitor.distinct_attempts`).
-/

namespace LockTrace

namespace Monitor

/-! ### Numbers of live sub-locks -/

theorem distinct_step {m : Monitor} (h : m.locks.Distinct) (key : Nat) (t : Transition) :
    (m.step key t).1.locks.Distinct := by
  refine step_induction (P := fun m => m.locks.Distinct) ?_ ?_ ?_ ?_ h
  · exact fun _ _ _ hm => hm
  · exact fun _ _ hf hm => hm.modify key hf
  · exact fun _ hm => hm
  · intro m side owner purge hm _
    rw [locks_closeTxn]
    exact hm

theorem distinct_call {m : Monitor} (h : m.locks.Distinct) (c : Call) :
    (m.call c).1.locks.Distinct := by
  cases c with
  | locate address label flags place =>
    rcases m.call_locate address label flags place with heq | ⟨kind, heq⟩
    · rw [heq]
      exact h
    · rw [heq]
      exact (h.create address label kind _).modify _ fun l => l.same_setFlags flags
  | operate key t => exact distinct_step h key t
  | countAccess ctx => exact h
  | freeRange base size time => exact h.freeRange base size time

theorem distinct_attempts (skipEmpty : Bool) (as : List Attempt) :
    ((initial skipEmpty).attempts as).locks.Distinct :=
  attempts_induction (P := LockStore.Distinct) (fun _ c h => distinct_call h c)
    (fun _ key flags h => h.modify key fun l => l.same_setFlags flags) .empty as

/-! ### Moments of a call -/

/-- A monitor that comes from `m` by closing transactions, with reports and remarks in between.
    The locks stay as they are. -/
inductive ClosesTo (m : Monitor) : Monitor → Prop
  | refl : ClosesTo m m
  | report {m' : Monitor} (i : Inconsistency) (h : ClosesTo m m') : ClosesTo m (m'.report i)
  | remark {m' : Monitor} (r : Remark) (h : ClosesTo m m') : ClosesTo m (m'.remark r)
  | closeTxn {m' : Monitor} (key : Nat) (side : Side) (ctx : Int64) (time : UInt64) (purge : Bool)
      (h : ClosesTo m m') : ClosesTo m (m'.closeTxn key side ctx time purge).2

theorem ClosesTo.locks_eq {m m' : Monitor} (h : ClosesTo m m') : m'.locks = m.locks := by
  induction h with
  | refl => rfl
  | report i _ ih => exact ih
  | remark r _ ih => exact ih
  | closeTxn key side ctx time purge _ ih =>
    rw [locks_closeTxn]
    exact ih

/-- A moment at which a transaction `top` is closed: in the monitor `monitor` the transaction of
    the sub-lock (`key`, `side`) is to be closed in the context `ctx`, and of its stack those
    of `above` are closed already. -/
structure Closing where
  monitor : Monitor
  key : Nat
  side : Side
  ctx : Int64
  time : UInt64
  purge : Bool
  above : TxnStack
  top : Txn
  below : TxnStack

/-- The work that starts with `start` and has come to `last` went through a moment, and until
    then brought forth the outputs `before`. -/
structure Closing.Between (w : Closing) (start last : Monitor) (before : List Output) : Prop where
  reached : start.ClosesTo w.monitor
  goesOn : Moves true (w.monitor.closeTxn w.key w.side w.ctx w.time w.purge).2 last
  stack : w.monitor.stack w.ctx = w.above ++ w.top :: w.below
  above : ¬ w.above.HasAnchor w.key w.side
  outputs : ∃ os, start.outputs ++ before = w.monitor.outputs ++ os ∧
    os.filter Output.isEnding = w.above.map (Txn.ending w.monitor.skipEmpty w.time)

/-! ### What is told on the way -/

/-- Of every transaction that was written since `start` it was told what it held. -/
def Told (start m : Monitor) : Prop :=
  ∃ os, m.outputs = start.outputs ++ os ∧
    ∀ before row after, os = before ++ .record (.txn row) :: after →
      ∃ w : Closing, w.Between start m before ∧ row = w.top.row w.time ∧
        w.monitor.locks.TellsHeld w.time w.top w.below after

namespace Told

variable {start m m' : Monitor}

/-- No transaction is written. -/
theorem of_silent {os : List Output} (houtputs : m.outputs = start.outputs ++ os)
    (hos : ∀ o ∈ os, o.txnRow? = none) : Told start m := by
  refine ⟨os, houtputs, ?_⟩
  rintro before row after rfl
  have hnone := hos (.record (.txn row)) (by simp)
  cases hnone

theorem refl : Told start start := of_silent (List.append_nil _).symm (by simp)

/-- Nothing is written that could belong to a transaction. -/
theorem keep (h : Told start m) (hmoves : Moves true m m') {os : List Output}
    (houtputs : m'.outputs = m.outputs ++ os)
    (hos : ∀ o ∈ os, o.txnRow? = none ∧ o.isOnHeld = false) : Told start m' := by
  obtain ⟨earlier, hearlier, htold⟩ := h
  refine ⟨earlier ++ os, by rw [houtputs, hearlier, List.append_assoc], ?_⟩
  intro before row after hsplit
  rcases append_eq_split hsplit with ⟨rest, hbefore, rfl⟩ | ⟨first, _, hnew⟩
  · obtain ⟨w, hbetween, hrow, htells⟩ := htold before row rest hbefore
    refine ⟨w, { hbetween with goesOn := hbetween.goesOn.trans hmoves }, hrow, ?_⟩
    exact htells.append (.of_forall fun o ho => (hos o ho).2)
  · have hnone := (hos (.record (.txn row)) (by simp [hnew])).1
    cases hnone

theorem report (h : Told start m) {i : Inconsistency} (hi : i.AboutOperation) :
    Told start (m.report i) := by
  refine h.keep (Moves.refl.report i) (m.outputs_withOutputs [.report i]) ?_
  intro o ho
  rw [List.mem_singleton.mp ho]
  cases i <;> first | exact hi.elim | exact ⟨rfl, rfl⟩

theorem modifyLock (h : Told start m) (key : Nat) (f : Lock → Lock) :
    Told start (m.modifyLock key f) :=
  h.keep (Moves.refl.modifyLock key f) (List.append_nil _).symm (by simp)

theorem beginHold (h : Told start m) (key : Nat) (t : Transition) :
    Told start (m.beginHold key t) :=
  h.keep (Moves.refl.beginHold key t) (List.append_nil _).symm (by simp)

/-- Closing a transaction tells of each that it writes what it held, and what was told before is
    not added to. -/
theorem closeTxn (h : Told start m) (hreached : start.ClosesTo m)
    (hdistinct : start.locks.Distinct) (key : Nat) (side : Side) (ctx : Int64) (time : UInt64)
    (purge : Bool) : Told start (m.closeTxn key side ctx time purge).2 := by
  have hmoves : Moves true m (m.closeTxn key side ctx time purge).2 :=
    Moves.refl.closeTxn key side ctx time purge fun _ => rfl
  obtain ⟨earlier, hearlier, htold⟩ := h
  refine ⟨_, by rw [outputs_closeTxn, hearlier, List.append_assoc], ?_⟩
  intro before row after hsplit
  rcases append_eq_split hsplit with ⟨rest, hbefore, rfl⟩ | ⟨first, rfl, hnew⟩
  · obtain ⟨w, hbetween, hrow, htells⟩ := htold before row rest hbefore
    refine ⟨w, { hbetween with goesOn := hbetween.goesOn.trans hmoves }, hrow, ?_⟩
    exact htells.append (LockStore.breaks_unwindOutputs _)
  · have hdistinct' : m.locks.Distinct := hreached.locks_eq ▸ hdistinct
    obtain ⟨above, top, below, hstack, habove, hendings, hrow, htells⟩ :=
      LockStore.unwindOutputs_split hdistinct' hnew
    refine ⟨⟨m, key, side, ctx, time, purge, above, top, below⟩, ?_, hrow, htells⟩
    refine ⟨hreached, .refl, hstack, habove, first, ?_, hendings⟩
    rw [hearlier, List.append_assoc]

end Told

/-- So far only transactions were closed, and it was told what they held. -/
structure Unwinds (start m : Monitor) : Prop where
  reached : start.ClosesTo m
  told : Told start m

namespace Unwinds

variable {start m : Monitor} {key : Nat} {lock : Lock} {t : Transition}

theorem refl : Unwinds start start := ⟨.refl, .refl⟩

theorem mismatch (h : Unwinds start m) (fault : OperationFault) (desc : String) :
    Unwinds start (m.report (t.mismatch fault desc)) :=
  ⟨h.reached.report _, h.told.report trivial⟩

theorem stillActive (h : Unwinds start m) (count : Nat) (ctx : Int64) :
    Unwinds start (m.remark (.stillActive count ctx)) := by
  refine ⟨h.reached.remark _, h.told.keep ?_ (m.outputs_withOutputs [_]) ?_⟩
  · exact Moves.refl.outputs [.remark (.stillActive count ctx)]
      (List.forall_mem_singleton.mpr trivial)
  · exact List.forall_mem_singleton.mpr ⟨rfl, rfl⟩

theorem closeTxn (h : Unwinds start m) (hdistinct : start.locks.Distinct) (key : Nat) (side : Side)
    (ctx : Int64) (time : UInt64) (purge : Bool) :
    Unwinds start (m.closeTxn key side ctx time purge).2 :=
  ⟨h.reached.closeTxn key side ctx time purge,
    h.told.closeTxn h.reached hdistinct key side ctx time purge⟩

variable (hdistinct : start.locks.Distinct)

include hdistinct

theorem told_preempt (h : Unwinds start m) (hget : m.locks.get? key = some lock) :
    Told start (m.preempt key lock t) := by
  have hevict : Unwinds start (m.evict key lock t) :=
    evict_induction_mismatch (fun _ fault hm => hm.mismatch fault _)
      (fun _ owner hm _ => hm.closeTxn hdistinct key t.op.side.other owner t.time true) h
  have hdrained := hevict.told.modifyLock key (·.drain t.op.side.other)
  rw [preempt_of_get? (by rw [locks_evict, hget])]
  split
  · exact hdrained
  · exact hdrained.report trivial

theorem told_missedRelease (h : Unwinds start m) : Told start (m.missedRelease key lock t) := by
  obtain ⟨m₁, hm₁, ⟨owner, _, _, heq⟩ | ⟨_, heq⟩⟩ := m.missedRelease_cases key lock t
  · have hreported : Unwinds start m₁ := hm₁ ▸ h.mismatch _ _
    rw [heq]
    exact (hreported.closeTxn hdistinct key t.op.side owner t.time false).told.modifyLock key _
  · rw [heq, hm₁]
    exact (h.mismatch _ _).told

theorem told_release (h : Unwinds start m) : Told start (m.release key lock t) := by
  have hclosed : Told start (m.closeReleased key lock t) := by
    rcases m.closeReleased_cases key lock t with ⟨owner, _, _, _, heq⟩ | ⟨fault, _, heq⟩
    · rw [heq]
      exact (h.closeTxn hdistinct key t.op.side owner t.time false).told.modifyLock key _
    · rw [heq]
      exact (h.mismatch fault _).told
  rw [release_eq]
  split
  · exact hclosed.report trivial
  · exact hclosed.modifyLock key _

end Unwinds

/-! ### Every call -/

/-- Once the flags are set, an operation closes transactions before it changes the lock. -/
theorem told_step {m : Monitor} (hdistinct : m.locks.Distinct) (key : Nat) (t : Transition) :
    Told (m.modifyLock key (·.setFlags t.flags)) (m.step key t).1 := by
  rcases m.step_cases key t with ⟨_, heq⟩ | ⟨lock₀, lock, m₁, hget, hlock, hm₁, hcases⟩
  · rw [heq]
    exact .of_silent (List.append_nil _).symm (by simp)
  rw [← hm₁]
  have hdistinct₁ : m₁.locks.Distinct := hm₁ ▸ hdistinct.modify key fun l => l.same_setFlags t.flags
  have hlive : m₁.locks.get? key = some lock := by
    rw [hm₁, hlock]
    exact LockStore.get?_modify_self _ hget
  rcases hcases with ⟨_, _, heq⟩ | ⟨_, _, heq⟩ | ⟨_, heq⟩
  · rw [heq]
    rcases m₁.acquire_cases key lock t with
      ⟨_, _, heq⟩ | ⟨_, _, heq⟩ | ⟨_, _, _, _, heq⟩ | ⟨_, _, heq⟩
    · rw [heq]
      exact .refl
    · rw [heq]
      exact (Unwinds.refl.told_preempt hdistinct₁ hlive).beginHold key t
    · rw [heq]
      exact (Unwinds.refl.told_missedRelease hdistinct₁).beginHold key t
    · rw [heq]
      exact Told.refl.beginHold key t
  · rw [heq]
    exact Unwinds.refl.told_release hdistinct₁
  · rw [heq]
    exact Told.refl.report trivial

theorem told_closeAll {m : Monitor} (hdistinct : m.locks.Distinct) (time : UInt64) :
    Told m (m.closeAll time) := by
  refine (closeAll_induction (P := Unwinds m) ?_ ?_ Unwinds.refl).told
  · exact fun _ count ctx hm => hm.stillActive count ctx
  · exact fun _ ctx top _ hm _ => hm.closeTxn hdistinct top.lock top.side ctx time false

theorem told_call {m : Monitor} (hdistinct : m.locks.Distinct) (c : AnyCall) :
    Told { m with locks := m.locksWhenCut c } (m.anyCall c) := by
  cases c with
  | regular c =>
    cases c with
    | locate address label flags place =>
      rcases m.call_locate address label flags place with heq | ⟨kind, heq⟩
      · have hsame : m.anyCall (.regular (.locate address label flags place)) = m := heq
        rw [hsame]
        exact .of_silent (List.append_nil _).symm (by simp)
      · have hsame : m.anyCall (.regular (.locate address label flags place)) =
            m.withLock address label kind flags (place address) := heq
        rw [hsame]
        refine .of_silent (m.outputs_withLock address label kind flags (place address)) ?_
        exact fun o ho => (quiet_of_mem_lockRows ho).txnRow?_eq_none
    | operate key t => exact told_step hdistinct key t
    | countAccess ctx => exact .of_silent (List.append_nil _).symm (by simp)
    | freeRange base size time =>
      refine .of_silent (m.outputs_freeRange base size time) ?_
      exact fun o ho => (quiet_of_mem_reports _ ho).txnRow?_eq_none
  | openTxn key side ctx time => exact .of_silent (List.append_nil _).symm (by simp)
  | closeTxn key side ctx time purge =>
    exact Told.refl.closeTxn .refl hdistinct key side ctx time purge
  | closeAll time => exact told_closeAll hdistinct time

/-- Whenever a call writes a transaction, which it closes at a moment at which its locks are as
    they were but for their flags, the row of the transaction is followed by the rows on what it
    held then. -/
theorem heldRows_told_of_attempts (skipEmpty : Bool) (as : List Attempt) (c : AnyCall) :
    let m := (initial skipEmpty).attempts as
    m.outputs <+: (m.anyCall c).outputs ∧
    ∀ before row after,
      (m.anyCall c).outputs = m.outputs ++ (before ++ .record (.txn row) :: after) →
      ∃ w : Closing, w.Between { m with locks := m.locksWhenCut c } (m.anyCall c) before ∧
        row = w.top.row w.time ∧ w.monitor.locks.TellsHeld w.time w.top w.below after := by
  intro m
  obtain ⟨os, houtputs, htold⟩ := told_call (distinct_attempts skipEmpty as) c
  refine ⟨⟨os, houtputs.symm⟩, ?_⟩
  intro before row after hsplit
  exact htold before row after (List.append_cancel_left (houtputs.symm.trans hsplit))

/-- A reader takes a lock twice, then a second lock and a third. The memory of the third is freed
    while it is held. -/
def freedHolds : List Attempt :=
  let locate (address : UInt64) (label : String) : Attempt :=
    .done (.regular (.locate address label 0 fun _ => ⟨none, none⟩))
  let acquire (key : Nat) (side : Side) (time : UInt64) : Attempt :=
    .done (.regular (.operate key ⟨.acquire side, 1, time, Site.unknown, 0, .none, 0⟩))
  [locate 0x100 "rwlock_t", locate 0x200 "spinlock_t", locate 0x300 "spinlock_t",
    acquire 1 .reader 1, acquire 1 .reader 2, acquire 2 .writer 3, acquire 3 .writer 4,
    .done (.regular (.freeRange 0x300 8 5))]

/-- When the second lock is released, the transaction of the third is written with the first two
    sub-locks and a report, and then the one of the second lock with the same two. -/
theorem heldRows_told_of_freedHolds :
    let m := (initial false).attempts freedHolds
    let c : AnyCall := .closeTxn 2 .writer 1 7 false
    let held (txn lock : Nat) (time : UInt64) : Output :=
      .record (.held ⟨txn, lock, ⟨time, Site.unknown, 0, .none⟩⟩)
    ∃ w : Closing, w.Between { m with locks := m.locksWhenCut c } (m.anyCall c)
        [.record (.txn ⟨4, 4, 7⟩), held 4 1 2, held 4 3 3, .report (.danglingLock 7 4)] ∧
      ⟨3, 3, 7⟩ = w.top.row w.time ∧
      w.monitor.locks.TellsHeld w.time w.top w.below [held 3 1 2, held 3 3 3] := by
  intro m c held
  have hsplit : (m.anyCall c).outputs = m.outputs ++
      ([.record (.txn ⟨4, 4, 7⟩), held 4 1 2, held 4 3 3, .report (.danglingLock 7 4)] ++
        .record (.txn ⟨3, 3, 7⟩) :: [held 3 1 2, held 3 3 3]) := by
    decide +kernel
  exact (heldRows_told_of_attempts false freedHolds c).2 _ _ _ hsplit

end Monitor

end LockTrace
