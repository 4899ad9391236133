import LockTrace.Proofs.Calls
import LockTrace.Proofs.Operations

/-!
# One side at a time

No lock is ever held by readers and writers at once, and no side is held that its kind does
not have. This does not rest on the stacks: where an acquisition finds the other side held,
the other side is drained whether or not transactions were found to close. So it holds after
every sequence of attempts, also of those that bring stacks and locks out of step, and the
state that would stop the work is never met (`OneSided.step`).
-/

namespace LockTrace

/-! ### One lock -/

namespace Lock

/-- At most one side is held, and the lock has it. -/
structure OneSided (l : Lock) : Prop where
  exclusive : ∀ side, 0 < l.count side → l.count side.other = 0
  supported : ∀ side, 0 < l.count side → l.kind.supports side = true

namespace OneSided

variable {l : Lock}

/-- A lock of the same kind whose counts are not larger. -/
theorem mono (h : l.OneSided) {l' : Lock} (hkind : l'.kind = l.kind)
    (hle : ∀ side, l'.count side ≤ l.count side) : l'.OneSided where
  exclusive side hpos := by
    have hzero := h.exclusive side (Nat.lt_of_lt_of_le hpos (hle side))
    have hother := hle side.other
    omega
  supported side hpos := by
    rw [hkind]
    exact h.supported side (Nat.lt_of_lt_of_le hpos (hle side))

theorem setFlags (h : l.OneSided) (flags : UInt32) : (l.setFlags flags).OneSided :=
  h.mono rfl fun side => Nat.le_of_eq (l.count_setFlags flags side)

theorem popPosition (h : l.OneSided) : l.popPosition.OneSided :=
  h.mono rfl fun side => Nat.le_of_eq (l.count_popPosition side)

theorem endHold (h : l.OneSided) (side : Side) : (l.endHold side).OneSided :=
  h.mono (l.kind_endHold side) fun s => by
    rw [count_endHold]
    split <;> omega

theorem drain (h : l.OneSided) (side : Side) : (l.drain side).OneSided :=
  h.mono (l.kind_drain side) fun s => by
    rw [count_drain]
    split <;> omega

/-- A side is taken that the lock has and whose opposite is free. -/
theorem beginHold (h : l.OneSided) {p : Position} (hfree : l.count p.side.other = 0)
    (hkind : l.kind.supports p.side = true) : (l.beginHold p).OneSided where
  exclusive side hpos := by
    rw [count_beginHold] at hpos ⊢
    by_cases hside : p.side = side
    · subst hside
      rw [if_neg (Side.other_ne p.side).symm]
      exact hfree
    · rw [if_neg hside, Side.eq_other_of_ne (Ne.symm hside), hfree] at hpos
      exact absurd hpos (Nat.lt_irrefl 0)
  supported side hpos := by
    rw [kind_beginHold]
    rw [count_beginHold] at hpos
    split at hpos
    · next hside =>
      rw [← hside]
      exact hkind
    · exact h.supported side hpos

end OneSided

theorem oneSided_newLock (s : LockStore) (address : UInt64) (label : String) (kind : LockKind)
    (placement : Placement) : (s.newLock address label kind placement).OneSided where
  exclusive side hpos := by
    rw [LockStore.count_newLock] at hpos
    exact absurd hpos (Nat.lt_irrefl 0)
  supported side hpos := by
    rw [LockStore.count_newLock] at hpos
    exact absurd hpos (Nat.lt_irrefl 0)

end Lock

/-! ### All live locks -/

namespace LockStore

def Every (P : Lock → Prop) (s : LockStore) : Prop := ∀ key lock, s.get? key = some lock → P lock

namespace Every

variable {P : Lock → Prop} {s : LockStore}

theorem modify (h : s.Every P) {key : Nat} {f : Lock → Lock}
    (hf : ∀ lock, s.get? key = some lock → P (f lock)) : (s.modify key f).Every P := by
  intro k lock hget
  rw [get?_modify] at hget
  split at hget
  · next hk =>
    subst hk
    obtain ⟨lock', hget', rfl⟩ := Option.map_eq_some_iff.mp hget
    exact hf lock' hget'
  · exact h k lock hget

theorem create (h : s.Every P) {address : UInt64} {label : String} {kind : LockKind}
    {placement : Placement} (hnew : P (s.newLock address label kind placement)) :
    (s.create address label kind placement).store.Every P := by
  intro k lock hget
  rw [get?_create] at hget
  split at hget
  · cases hget
    exact hnew
  · exact h k lock hget

theorem freeRange (h : s.Every P) (base size time : UInt64) :
    (s.freeRange base size time).store.Every P :=
  fun k lock hget => h k lock (get?_of_get?_freeRange hget)

end Every

end LockStore

namespace Monitor

/-! ### One operation -/

def OneSided (m : Monitor) : Prop := m.locks.Every Lock.OneSided

theorem OneSided.modifyLock {m : Monitor} (h : m.OneSided) (key : Nat) {f : Lock → Lock}
    (hf : ∀ lock, lock.OneSided → (f lock).OneSided) : (m.modifyLock key f).OneSided :=
  LockStore.Every.modify h fun lock hget => hf lock (h key lock hget)

theorem OneSided.closeTxn {m : Monitor} (h : m.OneSided) (key : Nat) (side : Side) (ctx : Int64)
    (time : UInt64) (purge : Bool) : (m.closeTxn key side ctx time purge).2.OneSided := by
  unfold OneSided
  rw [locks_closeTxn]
  exact h

section Operation

variable {m : Monitor} {key : Nat} {lock : Lock} {t : Transition}

/-- A hold may begin once the opposite side of the lock is free. -/
theorem OneSided.beginHold (h : m.OneSided) {live : Lock} (hlive : m.locks.get? key = some live)
    (hfree : live.count t.op.side.other = 0) (hkind : live.kind.supports t.op.side = true) :
    (m.beginHold key t).OneSided := by
  apply LockStore.Every.modify h
  intro l hl
  rw [hlive] at hl
  cases hl
  exact (h key live hlive).beginHold hfree hkind

theorem OneSided.preempt (h : m.OneSided) (hget : m.locks.get? key = some lock) :
    (m.preempt key lock t).OneSided := by
  have hlive : (m.evict key lock t).locks.get? key = some lock := by
    rw [locks_evict]
    exact hget
  obtain ⟨reports, heq⟩ := m.preempt_eq key lock t hlive
  have hevict : (m.evict key lock t).OneSided := by
    unfold OneSided
    rw [locks_evict]
    exact h
  rw [heq]
  exact hevict.modifyLock key fun l hl => hl.drain t.op.side.other

theorem OneSided.missedRelease (h : m.OneSided) : (m.missedRelease key lock t).OneSided := by
  obtain ⟨m₁, hm₁, ⟨owner, _, _, heq⟩ | ⟨_, heq⟩⟩ := m.missedRelease_cases key lock t
  · have hreported : m₁.OneSided := by
      rw [hm₁]
      exact h
    rw [heq]
    exact (hreported.closeTxn key t.op.side owner t.time false).modifyLock key
      fun l hl => hl.popPosition.endHold t.op.side
  · rw [heq, hm₁]
    exact h

/-- The state of a one-sided lock is not contradictory, and whichever other state an
    acquisition meets, the opposite side is free when the hold begins. -/
theorem OneSided.acquire (h : m.OneSided) (hget : m.locks.get? key = some lock)
    (hkind : lock.kind.supports t.op.side = true) :
    (m.acquire key lock t).1.OneSided ∧ (m.acquire key lock t).2 = none := by
  rcases m.acquire_cases key lock t with
    ⟨hside, hother, _⟩ | ⟨_, _, heq⟩ | ⟨_, _, hfree, _, heq⟩ | ⟨hfree, _, heq⟩
  · have hzero := (h key lock hget).exclusive t.op.side hside
    omega
  · rw [heq]
    refine ⟨(h.preempt hget).beginHold (get?_preempt hget t) ?_ ?_, rfl⟩
    · rw [Lock.count_drain, if_pos rfl]
    · rw [Lock.kind_drain]
      exact hkind
  · obtain ⟨live, hlive, hkind', hcount⟩ := get?_missedRelease hget t
    rw [heq]
    refine ⟨h.missedRelease.beginHold hlive ?_ ?_, rfl⟩
    · rw [hcount]
      exact hfree
    · rw [hkind']
      exact hkind
  · rw [heq]
    exact ⟨h.beginHold hget hfree hkind, rfl⟩

theorem OneSided.release (h : m.OneSided) : (m.release key lock t).OneSided := by
  have hclosed : (m.closeReleased key lock t).OneSided := by
    rcases m.closeReleased_cases key lock t with ⟨owner, _, _, _, heq⟩ | ⟨fault, _, heq⟩
    · rw [heq]
      exact (h.closeTxn key t.op.side owner t.time false).modifyLock key
        fun l hl => hl.popPosition
    · rw [heq]
      exact h
  rw [release_eq]
  split
  · exact hclosed
  · exact hclosed.modifyLock key fun l hl => hl.endHold t.op.side

/-- An operation keeps every lock one-sided, and none is the last one. -/
theorem OneSided.step (h : m.OneSided) (key : Nat) (t : Transition) :
    (m.step key t).1.OneSided ∧ (m.step key t).2 = none := by
  rcases m.step_cases key t with ⟨_, heq⟩ | ⟨lock₀, lock, m₁, hget, hlock, hm₁, hcases⟩
  · rw [heq]
    exact ⟨h, rfl⟩
  · have hflags : m₁.OneSided := by
      rw [hm₁]
      exact h.modifyLock key fun l hl => hl.setFlags t.flags
    have hlive : m₁.locks.get? key = some lock := by
      rw [hm₁, hlock]
      exact LockStore.get?_modify_self _ hget
    rcases hcases with ⟨hkind, _, heq⟩ | ⟨_, _, heq⟩ | ⟨_, heq⟩
    · rw [heq]
      exact hflags.acquire hlive hkind
    · rw [heq]
      exact ⟨hflags.release, rfl⟩
    · rw [heq]
      exact ⟨hflags, rfl⟩

end Operation

/-! ### Every sequence of attempts -/

/-- What a regular call keeps of the locks, and the setting of flags, is kept by every sequence
    of attempts: other calls leave the locks, and of one that ends early no more is seen in them
    than that a lock was created or flags were set. -/
theorem attempts_induction {P : LockStore → Prop}
    (hcall : ∀ (m : Monitor) (c : Call), P m.locks → P (m.call c).1.locks)
    (hflags : ∀ (s : LockStore) (key : Nat) (flags : UInt32), P s →
      P (s.modify key (·.setFlags flags)))
    {m : Monitor} (h : P m.locks) (as : List Attempt) : P (m.attempts as).locks := by
  have hdone : ∀ (m : Monitor) (c : AnyCall), P m.locks → P (m.anyCall c).locks := by
    intro m c hm
    cases c with
    | regular c => exact hcall m c hm
    | openTxn key side ctx time => exact hm
    | closeTxn key side ctx time purge =>
      unfold anyCall
      rw [locks_closeTxn]
      exact hm
    | closeAll time =>
      unfold anyCall
      rw [locks_closeAll]
      exact hm
  have hcut : ∀ (m : Monitor) (c : AnyCall), P m.locks → P (m.locksWhenCut c) := by
    intro m c hm
    cases c with
    | regular c =>
      cases c with
      | locate address label flags place =>
        have hlocate := hcall m (.locate address label flags place) hm
        simp only [Monitor.call] at hlocate
        simp only [locksWhenCut]
        split at hlocate <;> exact hlocate
      | operate key t => exact hflags _ key t.flags hm
      | countAccess ctx => exact hm
      | freeRange base size time => exact hm
    | openTxn key side ctx time => exact hm
    | closeTxn key side ctx time purge => exact hm
    | closeAll time => exact hm
  induction as generalizing m with
  | nil => exact h
  | cons a as ih =>
    cases a with
    | done c => exact ih (hdone m c h)
    | cut c rest => exact ih (m := { rest with locks := m.locksWhenCut c }) (hcut m c h)

theorem OneSided.withLock {m : Monitor} (h : m.OneSided) (address : UInt64) (label : String)
    (kind : LockKind) (flags : UInt32) (placement : Placement) :
    (m.withLock address label kind flags placement).OneSided := by
  have hnew := LockStore.Every.create h
    (Lock.oneSided_newLock m.locks address label kind placement)
  exact LockStore.Every.modify hnew fun l hget => (hnew _ l hget).setFlags flags

theorem OneSided.call {m : Monitor} (h : m.OneSided) (c : Call) : (m.call c).1.OneSided := by
  cases c with
  | locate address label flags place =>
    rcases m.call_locate address label flags place with heq | ⟨kind, heq⟩
    · rw [heq]
      exact h
    · rw [heq]
      exact h.withLock address label kind flags (place address)
  | operate key t => exact (h.step key t).1
  | countAccess ctx => exact h
  | freeRange base size time => exact LockStore.Every.freeRange h base size time

theorem OneSided.attempts {m : Monitor} (h : m.OneSided) (as : List Attempt) :
    (m.attempts as).OneSided :=
  attempts_induction (P := fun s => s.Every Lock.OneSided) (fun _ c hm => OneSided.call hm c)
    (fun _ key flags hs => LockStore.Every.modify hs fun l hget => (hs key l hget).setFlags flags)
    h as

theorem OneSided.initial (skipEmpty : Bool) : (Monitor.initial skipEmpty).OneSided := by
  intro key lock hget
  cases hget

/-- No lock is ever held by readers and writers at once or on a side that it does not have,
    and no operation meets a lock in a contradictory state. -/
theorem locks_oneSided_of_attempts (skipEmpty : Bool) (as : List Attempt) :
    let m := (Monitor.initial skipEmpty).attempts as
    (∀ key lock, m.locks.get? key = some lock →
      (lock.readers = 0 ∨ lock.writers = 0) ∧
      (lock.kind = .writerOnly → lock.readers = 0) ∧
      (lock.kind = .readerOnly → lock.writers = 0)) ∧
    ∀ key t, (m.step key t).2 = none := by
  have hm : ((Monitor.initial skipEmpty).attempts as).OneSided :=
    (OneSided.initial skipEmpty).attempts as
  refine ⟨?_, fun key t => (hm.step key t).2⟩
  intro key lock hget
  have hlock := hm key lock hget
  refine ⟨?_, ?_, ?_⟩
  · by_cases hreaders : 0 < lock.readers
    · exact Or.inr (hlock.exclusive .reader hreaders)
    · exact Or.inl (by omega)
  · intro hkind
    apply Nat.eq_zero_of_not_pos
    intro hreaders
    have hsupports := hlock.supported .reader hreaders
    rw [hkind] at hsupports
    cases hsupports
  · intro hkind
    apply Nat.eq_zero_of_not_pos
    intro hwriters
    have hsupports := hlock.supported .writer hwriters
    rw [hkind] at hsupports
    cases hsupports

/-- Readers hold a lock in two contexts, a transaction is opened without a hold, a writer is
    turned down by a full sink, and then takes the lock. -/
def mixedAttempts : List Attempt :=
  let operate (op : LockOp) (ctx : Int64) (time : UInt64) : AnyCall :=
    .regular (.operate 1 ⟨op, ctx, time, Site.unknown, 0, .none, 0⟩)
  [.done (.regular (.locate 0x100 "rwlock_t" 0 fun _ => ⟨none, none⟩)),
    .done (operate (.acquire .reader) 1 1),
    .done (operate (.acquire .reader) 2 2),
    .done (.openTxn 1 .writer 3 3),
    .cut (operate (.acquire .writer) 3 4) (initial false),
    .done (operate (.acquire .writer) 3 5)]

theorem locks_oneSided_of_mixedAttempts :
    ∃ lock, ((Monitor.initial false).attempts mixedAttempts).locks.get? 1 = some lock ∧
      lock.writers = 1 ∧ (lock.readers = 0 ∨ lock.writers = 0) := by
  have hget : ((Monitor.initial false).attempts mixedAttempts).locks.get? 1 =
      some ⟨0x100, .both 1 2, "rwlock_t", none, none, 0, 0, 1,
        [⟨⟨5, Site.unknown, 0, .none⟩, .writer⟩]⟩ := by decide +kernel
  exact ⟨_, hget, rfl, ((locks_oneSided_of_attempts false mixedAttempts).1 1 _ hget).1⟩

end Monitor

end LockTrace
