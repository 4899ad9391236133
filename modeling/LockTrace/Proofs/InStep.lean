import LockTrace.Proofs.OneSided

/-!
# Locks and stacks stay in step

A lock counts how often its sides are held; the stacks hold a transaction for every hold.
The two are kept apart and changed apart, in several steps of one operation and partly in
other contexts than the one that acts, and yet they agree after every call (`InStep.calls`).

What makes this an invariant is more than the agreement itself: at most one side of a lock
is held, so that releasing it leaves positions of one side only; and a key that is not yet
handed out anchors no transaction, so that a new lock starts with none.
-/

namespace LockTrace

/-! ### The positions of one lock -/

namespace Lock

/-- There is a position for every hold, and of no other side than the one that is held. -/
structure Tracked (l : Lock) : Prop where
  length : l.history.length = l.readers + l.writers
  held : ∀ p ∈ l.history, 0 < l.count p.side

theorem readers_add_writers (l : Lock) (side : Side) :
    l.readers + l.writers = l.count side + l.count side.other := by
  cases side with
  | reader => rfl
  | writer => exact Nat.add_comm _ _

namespace Tracked

variable {l : Lock}

theorem history_ne_nil (h : l.Tracked) {side : Side} (hpos : 0 < l.count side) :
    l.history ≠ [] := by
  intro hempty
  have hlength := h.length
  rw [hempty, l.readers_add_writers side, List.length_nil] at hlength
  omega

theorem setFlags (h : l.Tracked) (flags : UInt32) : (l.setFlags flags).Tracked where
  length := h.length
  held p hp := by
    rw [count_setFlags]
    exact h.held p hp

theorem newLock (s : LockStore) (address : UInt64) (label : String) (kind : LockKind)
    (placement : Placement) : (s.newLock address label kind placement).Tracked where
  length := rfl
  held p hp := by cases hp

theorem beginHold (h : l.Tracked) (p : Position) : (l.beginHold p).Tracked where
  length := by
    rw [readers_add_writers _ p.side, count_beginHold, count_beginHold, if_pos rfl,
      if_neg (Side.other_ne _).symm, history_beginHold, List.length_cons, h.length,
      l.readers_add_writers p.side]
    omega
  held q hq := by
    rw [count_beginHold]
    rw [history_beginHold] at hq
    rcases List.mem_cons.mp hq with rfl | hq
    · rw [if_pos rfl]
      exact Nat.succ_pos _
    · have hpos := h.held q hq
      split <;> omega

/-- The lock without the latest position and with one hold less of the side that is held. -/
theorem endHold (h : l.Tracked) {side : Side} (hheld : 0 < l.count side)
    (hfree : l.count side.other = 0) : (l.popPosition.endHold side).Tracked := by
  have hhistory : (l.popPosition.endHold side).history = l.history.tail := by
    rw [history_endHold]
    rfl
  have hlength := h.length
  rw [l.readers_add_writers side] at hlength
  constructor
  · rw [hhistory, readers_add_writers _ side, count_endHold, count_endHold, if_pos rfl,
      if_neg (Side.other_ne _).symm, count_popPosition, count_popPosition, List.length_tail]
    omega
  · intro p hp
    rw [hhistory] at hp
    have hpos := h.held p (List.mem_of_mem_tail hp)
    have hside : side = p.side := by
      apply Decidable.byContradiction
      intro hne
      rw [Side.eq_other_of_ne (Ne.symm hne), hfree] at hpos
      exact absurd hpos (Nat.lt_irrefl 0)
    -- a position that is left is the second one at least
    have htail := List.length_pos_of_mem hp
    rw [List.length_tail] at htail
    rw [count_endHold, if_pos hside, count_popPosition, ← hside]
    omega

/-- Nothing is left of the lock if its only held side is drained. -/
theorem drain {side : Side} (hfree : l.count side.other = 0) : (l.drain side).Tracked where
  length := by
    rw [readers_add_writers _ side, count_drain, count_drain, if_pos rfl,
      if_neg (Side.other_ne _).symm, hfree]
    rfl
  held p hp := by cases hp

end Tracked

end Lock

namespace Monitor

/-! ### Agreement -/

/-- The locks and the stacks of a monitor agree. -/
structure InStep (m : Monitor) : Prop where
  counts : ∀ key lock, m.locks.get? key = some lock → ∀ side,
    lock.count side = m.countAnchored key side
  tracked : m.locks.Every Lock.Tracked
  nonempty : m.NoEmptyStack
  oneSided : m.OneSided
  issued : ∀ key lock, m.locks.get? key = some lock → key < m.locks.keys.next
  unused : ∀ key, m.locks.keys.next ≤ key → ∀ side, m.countAnchored key side = 0

theorem InStep.count_pos {m : Monitor} (h : m.InStep) {key : Nat} {lock : Lock} {side : Side}
    (hget : m.locks.get? key = some lock) {ctx : Int64}
    (hanchor : (m.stack ctx).HasAnchor key side) :
    0 < lock.count side := by
  rw [h.counts key lock hget]
  exact Nat.lt_of_lt_of_le (TxnStack.countAnchored_pos_iff.mpr hanchor)
    (m.countAnchored_stack_le ctx key side)

/-- A monitor that differs from `m` in the outputs, and otherwise in one lock, which is
    `lock`, and the transactions of that lock. -/
structure Touched (key : Nat) (lock : Lock) (m m' : Monitor) : Prop where
  get?_eq : ∀ k, m'.locks.get? k = if key = k then some lock else m.locks.get? k
  keys : m'.locks.keys = m.locks.keys
  others : ∀ k side, key ≠ k → m'.countAnchored k side = m.countAnchored k side
  nonempty : m'.NoEmptyStack

namespace Touched

variable {key : Nat} {lock : Lock} {m m' : Monitor}

theorem refl (hget : m.locks.get? key = some lock) (hm : m.NoEmptyStack) :
    Touched key lock m m where
  get?_eq k := by
    split
    · next hk => rw [← hk, hget]
    · rfl
  keys := rfl
  others _ _ _ := rfl
  nonempty := hm

theorem withOutputs (h : Touched key lock m m') (os : List Output) :
    Touched key lock m (m'.withOutputs os) :=
  ⟨h.get?_eq, h.keys, h.others, h.nonempty⟩

theorem modifyLock (h : Touched key lock m m') (f : Lock → Lock) :
    Touched key (f lock) m (m'.modifyLock key f) where
  get?_eq k := by
    have hmodify : (m'.modifyLock key f).locks.get? k =
        if key = k then (m'.locks.get? k).map f else m'.locks.get? k :=
      LockStore.get?_modify _ _ _ _
    rw [hmodify, h.get?_eq]
    split <;> rfl
  keys := h.keys
  others := h.others
  nonempty := h.nonempty

theorem openTxn (h : Touched key lock m m') (side : Side) (ctx : Int64) (time : UInt64) :
    Touched key lock m (m'.openTxn key side ctx time) where
  get?_eq := h.get?_eq
  keys := h.keys
  others k sd hk := by
    rw [countAnchored_openTxn, if_neg (fun heq => hk heq.1)]
    exact h.others k sd hk
  nonempty := h.nonempty.openTxn key side ctx time

theorem closeTxn (h : Touched key lock m m') (side : Side) (ctx : Int64) (time : UInt64)
    (purge : Bool) : Touched key lock m (m'.closeTxn key side ctx time purge).2 where
  get?_eq := by
    rw [locks_closeTxn]
    exact h.get?_eq
  keys := by
    rw [locks_closeTxn]
    exact h.keys
  others k sd hk := by
    rw [countAnchored_closeTxn, TxnStack.countAnchored_unwound_of_ne side time purge hk,
      ← countAnchored_split]
    exact h.others k sd hk
  nonempty := h.nonempty.closeTxn key side ctx time purge

end Touched

/-- Two monitors agree alike if they differ in one lock only, and this lock agrees with its
    transactions. -/
theorem InStep.of_touched {m m' : Monitor} {key : Nat} {lock lock' : Lock} (h : m.InStep)
    (hget : m.locks.get? key = some lock) (ht : Touched key lock' m m')
    (hcount : ∀ side, lock'.count side = m'.countAnchored key side) (htracked : lock'.Tracked)
    (hone : m'.OneSided) : m'.InStep := by
  have hissued := h.issued key lock hget
  constructor
  case counts =>
    intro k l hl side
    rw [ht.get?_eq] at hl
    split at hl
    · next hk =>
      cases hl
      rw [← hk]
      exact hcount side
    · next hk =>
      rw [ht.others k side hk]
      exact h.counts k l hl side
  case tracked =>
    intro k l hl
    rw [ht.get?_eq] at hl
    split at hl
    · cases hl
      exact htracked
    · exact h.tracked k l hl
  case nonempty => exact ht.nonempty
  case oneSided => exact hone
  case issued =>
    intro k l hl
    rw [ht.keys]
    rw [ht.get?_eq] at hl
    split at hl
    · next hk =>
      rw [← hk]
      exact hissued
    · exact h.issued k l hl
  case unused =>
    intro k hk side
    rw [ht.keys] at hk
    have hne : key ≠ k := Nat.ne_of_lt (Nat.lt_of_lt_of_le hissued hk)
    rw [ht.others k side hne]
    exact h.unused k hk side

/-! ### One operation -/

section Operation

variable {m : Monitor} {key : Nat} {lock : Lock} {t : Transition}

theorem InStep.withOutputs (h : m.InStep) (os : List Output) : (m.withOutputs os).InStep :=
  ⟨h.counts, h.tracked, h.nonempty, h.oneSided, h.issued, h.unused⟩

theorem InStep.report (h : m.InStep) (i : Inconsistency) : (m.report i).InStep :=
  h.withOutputs [.report i]

theorem InStep.setFlags (h : m.InStep) (key : Nat) (flags : UInt32) :
    (m.modifyLock key (·.setFlags flags)).InStep := by
  have hone := h.oneSided.modifyLock key fun l hl => hl.setFlags flags
  cases hget : m.locks.get? key with
  | some lock =>
    apply h.of_touched hget ((Touched.refl hget h.nonempty).modifyLock _) _
      ((h.tracked key lock hget).setFlags flags) hone
    intro side
    rw [Lock.count_setFlags]
    exact h.counts key lock hget side
  | none =>
    -- there is no such lock, and no look-up changes
    have hsame : ∀ k, (m.modifyLock key (·.setFlags flags)).locks.get? k = m.locks.get? k := by
      intro k
      refine (LockStore.get?_modify _ _ _ _).trans ?_
      split
      · next hk => rw [← hk, hget]; rfl
      · rfl
    exact {
      counts := fun k l hl => h.counts k l (hsame k ▸ hl)
      tracked := fun k l hl => h.tracked k l (hsame k ▸ hl)
      nonempty := h.nonempty
      oneSided := hone
      issued := fun k l hl => h.issued k l (hsame k ▸ hl)
      unused := h.unused }

theorem InStep.beginHold (h : m.InStep) (hget : m.locks.get? key = some lock)
    (hfree : lock.count t.op.side.other = 0) (hkind : lock.kind.supports t.op.side = true) :
    (m.beginHold key t).InStep := by
  apply h.of_touched hget
    (((Touched.refl hget h.nonempty).modifyLock _).openTxn t.op.side t.ctx t.time)
    _ ((h.tracked key lock hget).beginHold t.position) (h.oneSided.beginHold hget hfree hkind)
  intro side
  have hcount := h.counts key lock hget side
  have hopen : (m.beginHold key t).countAnchored key side =
      m.countAnchored key side + if key = key ∧ t.op.side = side then 1 else 0 :=
    countAnchored_openTxn _ _ _ _ _ _ _
  have hside : t.position.side = t.op.side := rfl
  refine Eq.trans ?_ hopen.symm
  rw [Lock.count_beginHold, hside, hcount]
  split
  · next hs => rw [if_pos ⟨rfl, hs⟩]
  · next hs => rw [if_neg (fun heq => hs heq.2), Nat.add_zero]

/-- After its transactions are closed, the side that is taken away has none left. -/
theorem countAnchored_evict_other (m : Monitor) (key : Nat) (lock : Lock) (t : Transition) :
    (m.evict key lock t).countAnchored key t.op.side.other = 0 :=
  countAnchored_closeSide t.ctx _ (Nat.le_refl _)

/-- A sub-lock without transactions has none after some are closed. -/
theorem countAnchored_closeTxn_eq_zero {sd : Side} (hfree : m.countAnchored key sd = 0)
    (side : Side) (owner : Int64) (time : UInt64) (purge : Bool) :
    (m.closeTxn key side owner time purge).2.countAnchored key sd = 0 := by
  have hle := TxnStack.countAnchored_unwound_le key side time purge m.txnIds.next
    (m.stack owner) key sd
  have hsplit := m.countAnchored_split owner key sd
  rw [countAnchored_closeTxn]
  omega

theorem countAnchored_evict_of_eq_zero {sd : Side} (hfree : m.countAnchored key sd = 0) :
    (m.evict key lock t).countAnchored key sd = 0 := by
  refine evict_induction (P := fun m' => m'.countAnchored key sd = 0) ?_ ?_ hfree
  · exact fun m' i hm' => hm'
  · intro m' owner hm' _
    exact countAnchored_closeTxn_eq_zero hm' t.op.side.other owner t.time true

theorem countAnchored_evict (hfree : m.countAnchored key t.op.side = 0) (side : Side) :
    (m.evict key lock t).countAnchored key side = 0 := by
  by_cases hs : side = t.op.side
  · rw [hs]
    exact countAnchored_evict_of_eq_zero hfree
  · rw [Side.eq_other_of_ne hs]
    exact countAnchored_evict_other m key lock t

theorem InStep.preempt (h : m.InStep) (hget : m.locks.get? key = some lock)
    (hfree : lock.count t.op.side = 0) : (m.preempt key lock t).InStep := by
  have hevict : Touched key lock m (m.evict key lock t) :=
    evict_induction (fun m' i hm' => hm'.withOutputs [.report i])
      (fun m' owner hm' _ => hm'.closeTxn t.op.side.other owner t.time true)
      (Touched.refl hget h.nonempty)
  have hlive : (m.evict key lock t).locks.get? key = some lock := by
    rw [hevict.get?_eq, if_pos rfl]
  obtain ⟨reports, heq⟩ := m.preempt_eq key lock t hlive
  have hnone : m.countAnchored key t.op.side = 0 := by
    rw [← h.counts key lock hget, hfree]
  have hdrained : Touched key (lock.drain t.op.side.other) m (m.preempt key lock t) := by
    rw [heq]
    exact (hevict.modifyLock (·.drain t.op.side.other)).withOutputs _
  apply h.of_touched hget hdrained _ _ (h.oneSided.preempt hget)
  · intro side
    have hzero : (m.preempt key lock t).countAnchored key side = 0 := by
      rw [heq]
      exact countAnchored_evict hnone side
    rw [hzero, Lock.count_drain]
    split
    · rfl
    · next hs =>
      have hs' : side = t.op.side :=
        (Side.eq_other_of_ne (Ne.symm hs)).trans t.op.side.other_other
      rw [hs']
      exact hfree
  · refine Lock.Tracked.drain ?_
    rw [Side.other_other]
    exact hfree

/-- Closing the transaction of a hold and ending the hold go together. -/
theorem InStep.endHold (h : m.InStep) (hget : m.locks.get? key = some lock) {owner : Int64}
    (hanchor : (m.stack owner).HasAnchor key t.op.side) {m' : Monitor}
    (ht : Touched key (lock.popPosition.endHold t.op.side) m m')
    (hcount : ∀ side, m'.countAnchored key side =
      (m.closeTxn key t.op.side owner t.time false).2.countAnchored key side)
    (hone : m'.OneSided) : m'.InStep := by
  have hpos := h.count_pos hget hanchor
  have hfree := (h.oneSided key lock hget).exclusive t.op.side hpos
  apply h.of_touched hget ht _ ((h.tracked key lock hget).endHold hpos hfree) hone
  intro side
  have hadd := TxnStack.countAnchored_unwound_add t.time m.txnIds.next hanchor key side
  have hsplit := m.countAnchored_split owner key side
  have hlock := h.counts key lock hget side
  rw [hcount, countAnchored_closeTxn, Lock.count_endHold, Lock.count_popPosition]
  split
  · next hs =>
    rw [if_pos ⟨rfl, hs⟩] at hadd
    omega
  · next hs =>
    rw [if_neg (fun heq => hs heq.2)] at hadd
    omega

theorem InStep.missedRelease (h : m.InStep) (hget : m.locks.get? key = some lock) :
    (m.missedRelease key lock t).InStep := by
  have hone : (m.missedRelease key lock t).OneSided := h.oneSided.missedRelease
  obtain ⟨m₁, hm₁, ⟨owner, _, hanchor, heq⟩ | ⟨_, heq⟩⟩ := m.missedRelease_cases key lock t
  · have hreported : m₁.InStep := by
      rw [hm₁]
      exact h.report _
    have hlive : m₁.locks.get? key = some lock := by
      rw [hm₁]
      exact hget
    rw [heq] at hone ⊢
    exact hreported.endHold hlive hanchor
      (((Touched.refl hlive hreported.nonempty).closeTxn t.op.side owner t.time false).modifyLock
        fun l => l.popPosition.endHold t.op.side)
      (fun side => rfl) hone
  · rw [heq, hm₁]
    exact h.report _

theorem InStep.release (h : m.InStep) (hget : m.locks.get? key = some lock) :
    (m.release key lock t).InStep := by
  have hone : (m.release key lock t).OneSided := h.oneSided.release
  have hside := h.counts key lock hget t.op.side
  rw [release_eq] at hone ⊢
  rcases m.closeReleased_cases key lock t with ⟨owner, _, _, hanchor, heq⟩ | ⟨fault, hnone, heq⟩
  · have hpos := h.count_pos hget hanchor
    rw [if_neg (Nat.ne_of_gt hpos), heq] at hone ⊢
    have hclosed := (Touched.refl hget h.nonempty).closeTxn t.op.side owner t.time false
    exact h.endHold hget hanchor
      ((hclosed.modifyLock Lock.popPosition).modifyLock (·.endHold t.op.side))
      (fun side => rfl) hone
  · -- without a position or a transaction the side is not held, and nothing changes
    have hzero : lock.count t.op.side = 0 := by
      rcases hnone with hempty | hnone
      · apply Nat.eq_zero_of_not_pos
        intro hpos
        exact (h.tracked key lock hget).history_ne_nil hpos hempty
      · rw [hside, hnone]
    rw [if_pos hzero, heq]
    exact (h.report _).report _

/-- A side that is held has a transaction on some stack. -/
theorem InStep.exists_holder (h : m.InStep) (hget : m.locks.get? key = some lock) {side : Side}
    (hheld : 0 < lock.count side) (ctx : Int64) : ∃ owner, m.holder? key side ctx = some owner := by
  apply Option.ne_none_iff_exists'.mp
  intro hnone
  rw [h.counts key lock hget, holder?_eq_none_iff.mp hnone] at hheld
  exact Nat.lt_irrefl 0 hheld

/-- What is held has a position and a transaction, so that a release meets no obstacle. -/
theorem InStep.release_of_held (h : m.InStep) (hget : m.locks.get? key = some lock)
    (hheld : 0 < lock.count t.op.side) :
    ∃ owner, m.holder? key t.op.side t.ctx = some owner ∧
      m.release key lock t =
        ((m.closeTxn key t.op.side owner t.time false).2.modifyLock key Lock.popPosition).modifyLock
          key (·.endHold t.op.side) := by
  obtain ⟨owner, hholder⟩ := h.exists_holder hget hheld t.ctx
  refine ⟨owner, hholder, ?_⟩
  rw [release_eq, if_neg (Nat.ne_of_gt hheld)]
  rcases m.closeReleased_cases key lock t with ⟨owner', _, hholder', _, heq⟩ | ⟨_, hnone, _⟩
  · cases hholder.symm.trans hholder'
    rw [heq]
  · rcases hnone with hempty | hzero
    · exact absurd hempty ((h.tracked key lock hget).history_ne_nil hheld)
    · have hnone : m.holder? key t.op.side t.ctx = none := holder?_eq_none_iff.mpr hzero
      cases hholder.symm.trans hnone

theorem InStep.acquire (h : m.InStep) (hget : m.locks.get? key = some lock)
    (hkind : lock.kind.supports t.op.side = true) : (m.acquire key lock t).1.InStep := by
  rcases m.acquire_cases key lock t with
    ⟨_, _, heq⟩ | ⟨hfree, _, heq⟩ | ⟨_, _, hfree, _, heq⟩ | ⟨hfree, _, heq⟩
  · rw [heq]
    exact h
  · rw [heq]
    refine (h.preempt hget hfree).beginHold (get?_preempt hget t) ?_ ?_
    · rw [Lock.count_drain, if_pos rfl]
    · rw [Lock.kind_drain]
      exact hkind
  · obtain ⟨live, hlive, hkind', hcount⟩ := get?_missedRelease hget t
    rw [heq]
    refine (h.missedRelease hget).beginHold hlive ?_ ?_
    · rw [hcount]
      exact hfree
    · rw [hkind']
      exact hkind
  · rw [heq]
    exact h.beginHold hget hfree hkind

theorem InStep.step (h : m.InStep) (key : Nat) (t : Transition) : (m.step key t).1.InStep := by
  rcases m.step_cases key t with ⟨_, heq⟩ | ⟨lock₀, lock, m₁, hget, hlock, hm₁, hcases⟩
  · rw [heq]
    exact h
  · have hflags : m₁.InStep := by
      rw [hm₁]
      exact h.setFlags key t.flags
    have hlive : m₁.locks.get? key = some lock := by
      rw [hm₁, hlock]
      exact LockStore.get?_modify_self _ hget
    rcases hcases with ⟨hkind, _, heq⟩ | ⟨_, _, heq⟩ | ⟨_, heq⟩
    · rw [heq]
      exact hflags.acquire hlive hkind
    · rw [heq]
      exact hflags.release hlive
    · rw [heq]
      exact hflags.report _

end Operation

/-! ### Every sequence of calls -/

theorem InStep.initial (skipEmpty : Bool) : (Monitor.initial skipEmpty).InStep where
  counts key lock hget := by cases hget
  tracked key lock hget := by cases hget
  nonempty ctx s hs := by cases hs
  oneSided := OneSided.initial skipEmpty
  issued key lock hget := by cases hget
  unused _ _ _ := rfl

/-- A new lock has a key that anchors no transaction. -/
theorem InStep.withLock {m : Monitor} (h : m.InStep) (address : UInt64) (label : String)
    (kind : LockKind) (flags : UInt32) (placement : Placement) :
    (m.withLock address label kind flags placement).InStep := by
  have hget := m.get?_withLock address label kind flags placement
  constructor
  case counts =>
    intro k l hl side
    rw [hget] at hl
    split at hl
    · next hk =>
      cases hl
      rw [Lock.count_setFlags, LockStore.count_newLock, ← hk]
      exact (h.unused m.locks.keys.next (Nat.le_refl _) side).symm
    · exact h.counts k l hl side
  case tracked =>
    intro k l hl
    rw [hget] at hl
    split at hl
    · cases hl
      exact (Lock.Tracked.newLock ..).setFlags flags
    · exact h.tracked k l hl
  case nonempty => exact h.nonempty
  case oneSided => exact h.oneSided.withLock address label kind flags placement
  case issued =>
    intro k l hl
    rw [hget] at hl
    split at hl
    · next hk =>
      rw [← hk]
      exact Nat.lt_succ_self _
    · exact Nat.lt_succ_of_lt (h.issued k l hl)
  case unused =>
    intro k hk side
    exact h.unused k (Nat.le_of_succ_le hk) side

theorem InStep.countAccess {m : Monitor} (h : m.InStep) (ctx : Int64) :
    (m.countAccess ctx).InStep where
  counts key lock hget side := by
    rw [countAnchored_countAccess]
    exact h.counts key lock hget side
  tracked := h.tracked
  nonempty := h.nonempty.setStack ctx _
  oneSided := h.oneSided
  issued := h.issued
  unused key hkey side := by
    rw [countAnchored_countAccess]
    exact h.unused key hkey side

theorem InStep.freeRange {m : Monitor} (h : m.InStep) (base size time : UInt64) :
    (m.freeRange base size time).2.InStep := by
  have hkeys : (m.freeRange base size time).2.locks.keys = m.locks.keys :=
    LockStore.keys_freeRange m.locks base size time
  have hlive : ∀ k l, (m.freeRange base size time).2.locks.get? k = some l →
      m.locks.get? k = some l :=
    @LockStore.get?_of_get?_freeRange m.locks base size time
  exact {
    counts := fun k l hl => h.counts k l (hlive k l hl)
    tracked := fun k l hl => h.tracked k l (hlive k l hl)
    nonempty := h.nonempty
    oneSided := fun k l hl => h.oneSided k l (hlive k l hl)
    issued := fun k l hl => by
      rw [hkeys]
      exact h.issued k l (hlive k l hl)
    unused := fun k hk => by
      rw [hkeys] at hk
      exact h.unused k hk }

theorem InStep.call {m : Monitor} (h : m.InStep) (c : Call) : (m.call c).1.InStep := by
  cases c with
  | locate address label flags place =>
    rcases m.call_locate address label flags place with heq | ⟨kind, heq⟩
    · rw [heq]
      exact h
    · rw [heq]
      exact h.withLock address label kind flags (place address)
  | operate key t => exact h.step key t
  | countAccess ctx => exact h.countAccess ctx
  | freeRange base size time => exact h.freeRange base size time

theorem InStep.calls {m : Monitor} (h : m.InStep) (cs : List Call) : (m.calls cs).InStep := by
  induction cs generalizing m with
  | nil => exact h
  | cons c cs ih => exact ih (h.call c)

/-- After any calls, the counts of every live lock are the numbers of transactions that are
    anchored at its sides, its positions are those of its holds, and no context has an empty
    stack. -/
theorem locks_inStep_of_calls (skipEmpty : Bool) (cs : List Call) :
    let m := (Monitor.initial skipEmpty).calls cs
    (∀ key lock, m.locks.get? key = some lock →
      (∀ side, lock.count side = m.countAnchored key side) ∧
      lock.history.length = lock.readers + lock.writers ∧
      ∀ p ∈ lock.history, 0 < lock.count p.side) ∧
    ∀ ctx, m.running.get? ctx ≠ some [] := by
  have hm := (InStep.initial skipEmpty).calls cs
  refine ⟨fun key lock hget => ⟨hm.counts key lock hget, (hm.tracked key lock hget).length,
    (hm.tracked key lock hget).held⟩, fun ctx hempty => hm.nonempty ctx [] hempty rfl⟩

/-- Two contexts read under one lock, one of them takes another lock on top, and a third
    context takes the first lock as a writer. -/
def overtakingCalls : List Call :=
  [.locate 0x100 "rwlock_t" 0 fun _ => ⟨none, none⟩,
    .operate 1 ⟨.acquire .reader, 1, 1, Site.unknown, 0, .none, 0⟩,
    .operate 1 ⟨.acquire .reader, 2, 2, Site.unknown, 0, .none, 0⟩,
    .locate 0x200 "spinlock_t" 0 fun _ => ⟨none, none⟩,
    .operate 2 ⟨.acquire .writer, 2, 3, Site.unknown, 0, .none, 0⟩,
    .operate 1 ⟨.acquire .writer, 3, 4, Site.unknown, 0, .none, 0⟩]

theorem locks_inStep_of_overtakingCalls :
    ∃ lock, ((Monitor.initial true).calls overtakingCalls).locks.get? 1 = some lock ∧
      lock.count .writer = ((Monitor.initial true).calls overtakingCalls).countAnchored 1 .writer ∧
      lock.history.length = lock.readers + lock.writers := by
  have hget : ((Monitor.initial true).calls overtakingCalls).locks.get? 1 =
      some ⟨0x100, .both 1 2, "rwlock_t", none, none, 0, 0, 1,
        [⟨⟨4, Site.unknown, 0, .none⟩, .writer⟩]⟩ := by decide +kernel
  have hin := (locks_inStep_of_calls true overtakingCalls).1 1 _ hget
  exact ⟨_, hget, hin.1 .writer, hin.2.1⟩

end Monitor

end LockTrace
