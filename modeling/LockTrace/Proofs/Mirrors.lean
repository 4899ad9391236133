import LockTrace.Proofs.Faithful
import LockTrace.Proofs.InStep

/-!
# A monitor that mirrors a ledger

A monitor mirrors a ledger if it has the same locks, if the stack of every context is anchored
at what the context holds, as often as it holds it, and if its rows say what the ledger attests
(`Mirrors`). What the ledger allows then meets the lock in the plain state: an acquisition
finds no one on the other side (`Mirrors.count_eq_zero`), a release finds the transaction in its
own context (`Mirrors.hasAnchor`), and freed memory holds no lock that is held. So every such
step is mirrored again.
-/

namespace LockTrace

/-! ### Locks that stay the same -/

namespace LockStore

theorem anchor?_modify (locks : LockStore) (key : Nat) {f : Lock → Lock}
    (hf : ∀ lock : Lock, lock.Same (f lock)) (t : Txn) :
    (locks.modify key f).anchor? t = locks.anchor? t := by
  unfold anchor?
  rw [get?_modify]
  split
  · cases locks.get? t.lock with
    | none => rfl
    | some lock => rw [Option.map_some, Option.map_some, Option.map_some, (hf lock).address]
  · rfl

theorem get?_anchor {locks : LockStore} {t : Txn} {p : UInt64 × Side}
    (h : locks.anchor? t = some p) :
    ∃ lock, locks.get? t.lock = some lock ∧ p = (lock.address, t.side) := by
  obtain ⟨lock, hget, heq⟩ := Option.map_eq_some_iff.mp h
  exact ⟨lock, hget, heq.symm⟩

/-- A transaction that is anchored where a hold is lies at a key if the lock of the key is that of
    the hold. -/
theorem Keyed.anchoredAt_iff {locks : LockStore} (h : locks.Keyed) {key : Nat} {lock : Lock}
    (hget : locks.get? key = some lock) {t : Txn} (hold : Hold)
    (hat : locks.anchor? t = some (hold.address, hold.side)) {side : Side} :
    t.AnchoredAt key side ↔ hold = ⟨hold.ctx, lock.address, side⟩ := by
  obtain ⟨ctx, address, side'⟩ := hold
  obtain ⟨lock', hget', hp⟩ := get?_anchor hat
  obtain ⟨rfl, rfl⟩ := Prod.mk.inj hp
  constructor
  · rintro ⟨rfl, rfl⟩
    cases hget.symm.trans hget'
    rfl
  · intro hhold
    injection hhold with _ haddress hside
    exact ⟨h.key_unique hget' hget haddress, hside⟩

end LockStore

theorem Lock.isHeld_of_count_pos {l : Lock} {side : Side} (hpos : 0 < l.count side)
    (hkind : l.kind.supports side = true) : l.isHeld = true := by
  unfold isHeld
  cases hk : l.kind <;> cases side <;> rw [hk] at hkind <;>
    simp_all [count, LockKind.supports]

theorem Lock.count_pos_of_isHeld {l : Lock} (h : l.isHeld = true) : ∃ side, 0 < l.count side := by
  unfold isHeld at h
  split at h
  · exact ⟨.reader, of_decide_eq_true h⟩
  · exact ⟨.writer, of_decide_eq_true h⟩
  · rcases of_decide_eq_true h with hr | hw
    · exact ⟨.reader, hr⟩
    · exact ⟨.writer, hw⟩

namespace Monitor

/-- In step with the stacks, a live lock backs its transactions. -/
theorem InStep.backs {m : Monitor} (h : m.InStep) {t : Txn} (ht : t ∈ m.openTxns) {lock : Lock}
    (hget : m.locks.get? t.lock = some lock) : m.locks.Backs t := by
  obtain ⟨ctx, hctx⟩ := mem_openTxns_iff.mp ht
  have hpos := h.count_pos hget ⟨t, hctx, t.anchoredAt_self⟩
  have hkind := (h.oneSided t.lock lock hget).supported t.side hpos
  have hhistory := (h.tracked t.lock lock hget).history_ne_nil hpos
  have hside : (lock.subLocks.id? t.side).isSome = true := by
    rw [SubLocks.isSome_id?]
    exact hkind
  obtain ⟨id, hid⟩ := Option.isSome_iff_exists.mp hside
  exact ⟨lock, id, hget, Lock.isHeld_of_count_pos hpos hkind, hhistory, hid⟩

theorem Ready.modifyLock {m : Monitor} (h : m.Ready) (key : Nat) {f : Lock → Lock}
    (hf : ∀ lock : Lock, lock.Same (f lock)) : (m.modifyLock key f).Ready := by
  apply h.of_same (Moves.refl.modifyLock key f) rfl rfl
  · exact fun _ _ hget => LockStore.exists_same_of_get?_modify hf hget
  · exact h.keyed.modify key fun lock => (hf lock).address

theorem Faithful.modifyLock {strip : Site → Site} {m : Monitor} {kept : List Attested}
    (h : m.Faithful strip kept) (key : Nat) {f : Lock → Lock}
    (hf : ∀ lock : Lock, lock.Same (f lock)) : (m.modifyLock key f).Faithful strip kept := by
  have houtputs : (m.modifyLock key f).outputs = m.outputs ++ [] := (List.append_nil _).symm
  apply h.keep (h.ready.modifyLock key hf) (fun c => rfl) _ houtputs
  · intro o ho
    cases ho
  · intro i hi
    cases hi
  · intro t _
    exact m.locks.anchor?_modify key hf t

/-! ### The mirror -/

/-- The monitor has the locks, the holds and the rows of the ledger. -/
structure Mirrors (strip : Site → Site) (m : Monitor) (l : Ledger) : Prop where
  kinds : ∀ address, m.locks.kindAt? address = l.kinds address
  anchors : ∀ ctx, ((m.stack ctx).map m.locks.anchor?).Perm ((l.held ctx).map some)
  inStep : m.InStep
  faithful : m.Faithful strip l.kept

namespace Mirrors

variable {strip : Site → Site} {m : Monitor} {l : Ledger}

theorem initial (strip : Site → Site) (config : Config) :
    (Monitor.initial config.skipEmpty).Mirrors strip (.start config) where
  kinds _ := rfl
  anchors _ := .refl _
  inStep := .initial config.skipEmpty
  faithful := .initial strip config.skipEmpty

/-- Where a transaction is anchored, its context holds the lock. -/
theorem mem_held (h : m.Mirrors strip l) {ctx : Int64} {t : Txn} (ht : t ∈ m.stack ctx) :
    ∃ lock, m.locks.get? t.lock = some lock ∧ (lock.address, t.side) ∈ l.held ctx := by
  have hanchor : m.locks.anchor? t ∈ (m.stack ctx).map m.locks.anchor? := List.mem_map_of_mem ht
  obtain ⟨p, hp, heq⟩ := List.mem_map.mp ((h.anchors ctx).mem_iff.mp hanchor)
  obtain ⟨lock, hget, rfl⟩ := LockStore.get?_anchor heq.symm
  exact ⟨lock, hget, hp⟩

theorem backed (h : m.Mirrors strip l) : m.Backed := by
  intro t ht
  obtain ⟨ctx, hctx⟩ := mem_openTxns_iff.mp ht
  obtain ⟨lock, hget, _⟩ := h.mem_held hctx
  exact h.inStep.backs ht hget

/-- A side that nobody holds by the ledger is not held. -/
theorem count_eq_zero (h : m.Mirrors strip l) {key : Nat} {lock : Lock} {side : Side}
    (hget : m.locks.get? key = some lock) (hfree : ¬ l.Outstanding lock.address side) :
    lock.count side = 0 := by
  rw [h.inStep.counts key lock hget side, countAnchored_eq, TxnStack.countAnchored_eq_zero_iff]
  rintro ⟨t, ht, rfl, rfl⟩
  obtain ⟨ctx, hctx⟩ := mem_openTxns_iff.mp ht
  obtain ⟨lock', hget', hheld⟩ := h.mem_held hctx
  rw [hget] at hget'
  cases hget'
  exact hfree (l.outstanding_of_mem_held hheld)

/-- What a context holds by the ledger, it has a transaction for. -/
theorem hasAnchor (h : m.Mirrors strip l) {key : Nat} {lock : Lock} {ctx : Int64} {side : Side}
    (hget : m.locks.get? key = some lock) (hhold : ⟨ctx, lock.address, side⟩ ∈ l.holds) :
    (m.stack ctx).HasAnchor key side := by
  have hheld : (lock.address, side) ∈ l.held ctx := l.mem_held_iff.mpr hhold
  obtain ⟨t, ht, heq⟩ := List.mem_map.mp
    ((h.anchors ctx).mem_iff.mpr (List.mem_map_of_mem (f := some) hheld))
  have hkeyed := h.faithful.ready.keyed
  exact ⟨t, ht, (hkeyed.anchoredAt_iff hget ⟨ctx, lock.address, side⟩ heq).mpr rfl⟩

theorem exists_lock (h : m.Mirrors strip l) {hold : Hold} (hhold : hold ∈ l.holds) :
    ∃ key lock, m.locks.find? hold.address = some key ∧ m.locks.get? key = some lock ∧
      lock.address = hold.address := by
  have hheld : (hold.address, hold.side) ∈ l.held hold.ctx := l.mem_held_iff.mpr hhold
  obtain ⟨t, _, heq⟩ := List.mem_map.mp
    ((h.anchors hold.ctx).mem_iff.mpr (List.mem_map_of_mem (f := some) hheld))
  obtain ⟨lock, hget, hp⟩ := LockStore.get?_anchor heq
  have haddress := (Prod.mk.inj hp).1.symm
  exact ⟨t.lock, lock, (h.faithful.ready.keyed.find_iff _ _).mpr ⟨lock, hget, haddress⟩, hget,
    haddress⟩

theorem count_pos (h : m.Mirrors strip l) {key : Nat} {lock : Lock} {ctx : Int64} {side : Side}
    (hget : m.locks.get? key = some lock) (hhold : ⟨ctx, lock.address, side⟩ ∈ l.holds) :
    0 < lock.count side :=
  h.inStep.count_pos hget (h.hasAnchor hget hhold)

/-- All transactions of a lock stand for the side that is held. -/
theorem side_eq (h : m.Mirrors strip l) {key : Nat} {lock : Lock} {side : Side}
    (hget : m.locks.get? key = some lock) (hpos : 0 < lock.count side) {t : Txn}
    (ht : t ∈ m.openTxns) (hkey : t.lock = key) : t.side = side := by
  by_contra hne
  have hzero := (h.inStep.oneSided key lock hget).exclusive side hpos
  rw [h.inStep.counts key lock hget, countAnchored_eq, TxnStack.countAnchored_eq_zero_iff] at hzero
  exact hzero ⟨t, ht, hkey, Side.eq_other_of_ne hne⟩

/-! ### Nothing but rows -/

/-- Allocations and accesses to come are of no account. -/
theorem congr (h : m.Mirrors strip l) {l' : Ledger} (hkinds : l'.kinds = l.kinds)
    (hholds : l'.holds = l.holds) (hkept : l'.kept = l.kept) : m.Mirrors strip l' where
  kinds address := by
    rw [hkinds]
    exact h.kinds address
  anchors ctx := by
    unfold Ledger.held
    rw [hholds]
    exact h.anchors ctx
  inStep := h.inStep
  faithful := by
    rw [hkept]
    exact h.faithful

theorem withOutputs (h : m.Mirrors strip l) {os : List Output} (hplain : ∀ o ∈ os, o.Plain) :
    (m.withOutputs os).Mirrors strip l where
  kinds := h.kinds
  anchors := h.anchors
  inStep := h.inStep.withOutputs os
  faithful := h.faithful.withOutputs hplain

theorem access (h : m.Mirrors strip l) {ctx : Int64} {row : AccessRow} {a : Attested}
    (hrow : row.txn = (m.innermost? ctx).map Txn.id) (hin : a.IsIn strip row)
    (hheld : a.held = l.held ctx) :
    ((m.countAccess ctx).write (.access row)).Mirrors strip { l with kept := l.kept ++ [a] } where
  kinds := h.kinds
  anchors c := by
    have hmap : (((m.countAccess ctx).write (.access row)).stack c).map m.locks.anchor? =
        (m.stack c).map m.locks.anchor? := by
      rw [stack_access]
      split
      · next hctx =>
        rw [hctx]
        cases m.stack c <;> rfl
      · rfl
    exact (List.Perm.of_eq hmap).trans (h.anchors c)
  inStep := (h.inStep.countAccess ctx).withOutputs [_]
  faithful := by
    apply h.faithful.access hrow hin
    rw [hheld]
    exact h.anchors ctx

/-! ### Lock operations -/

theorem setFlags (h : m.Mirrors strip l) (key : Nat) (flags : UInt32) :
    (m.modifyLock key (·.setFlags flags)).Mirrors strip l where
  kinds address := by
    rw [← h.kinds]
    exact m.locks.kindAt?_modify key (fun lock => (lock.same_setFlags flags).kind) address
  anchors ctx := by
    have hsame : (m.modifyLock key (·.setFlags flags)).locks.anchor? = m.locks.anchor? := by
      funext t
      exact m.locks.anchor?_modify key (fun lock => lock.same_setFlags flags) t
    rw [hsame]
    exact h.anchors ctx
  inStep := h.inStep.setFlags key flags
  faithful := h.faithful.modifyLock key fun lock => lock.same_setFlags flags

/-- A hold begins, and the stack of its context grows by its transaction. -/
theorem beginHold (h : m.Mirrors strip l) {key : Nat} {lock : Lock} {t : Transition}
    (hget : m.locks.get? key = some lock) (hfree : lock.count t.op.side.other = 0)
    (hkind : lock.kind.supports t.op.side = true) :
    (m.beginHold key t).Mirrors strip (l.take ⟨t.ctx, lock.address, t.op.side⟩) := by
  have hsame : ∀ lock : Lock, lock.Same (lock.beginHold t.position) :=
    fun lock => lock.same_beginHold t.position
  have hanchor : (m.beginHold key t).locks.anchor? = m.locks.anchor? := by
    funext u
    exact m.locks.anchor?_modify key hsame u
  have hnew : m.locks.anchor? (.opened m.txnIds.next t.time key t.op.side) =
      some (lock.address, t.op.side) := LockStore.anchor?_of_get? hget
  constructor
  · intro address
    rw [show (l.take ⟨t.ctx, lock.address, t.op.side⟩).kinds = l.kinds from rfl, ← h.kinds]
    exact m.locks.kindAt?_modify key (fun lock => (hsame lock).kind) address
  · intro ctx
    have hstack : (m.beginHold key t).stack ctx =
        if t.ctx = ctx then .opened m.txnIds.next t.time key t.op.side :: m.stack t.ctx
        else m.stack ctx := stack_openTxn _ _ _ _ _ _
    rw [hanchor, hstack, l.held_take]
    by_cases hctx : t.ctx = ctx
    · rw [if_pos hctx, if_pos hctx, hctx, List.map_cons, List.map_cons, hnew]
      exact (h.anchors ctx).cons _
    · rw [if_neg hctx, if_neg hctx]
      exact h.anchors ctx
  · exact h.inStep.beginHold hget hfree hkind
  · exact (h.faithful.modifyLock key hsame).openTxn key t.op.side t.ctx t.time

/-- An acquisition that the ledger allows meets no one in its way. -/
theorem acquire (h : m.Mirrors strip l) {key : Nat} {lock : Lock} {t : Transition}
    (hget : m.locks.get? key = some lock) (hkind : lock.kind.supports t.op.side = true)
    (hmay : l.MayAcquire lock.address lock.flags t.op.side) :
    m.acquire key lock t = (m.beginHold key t, none) ∧
      (m.beginHold key t).Mirrors strip (l.take ⟨t.ctx, lock.address, t.op.side⟩) := by
  have hother : lock.count t.op.side.other = 0 := by
    apply h.count_eq_zero hget
    cases hside : t.op.side with
    | reader =>
      rw [hside] at hmay
      exact hmay
    | writer =>
      rw [hside] at hmay
      exact hmay.1
  refine ⟨?_, h.beginHold hget hother hkind⟩
  rcases m.acquire_cases key lock t with
    ⟨_, hpos, _⟩ | ⟨_, hpos, _⟩ | ⟨hside, hpos, _, hrec, _⟩ | ⟨_, _, heq⟩
  · omega
  · omega
  · -- a writer that is not recursive may acquire only what no writer holds
    rw [hside] at hmay hpos
    have hflag : lock.flags &&& 1 = 0 := by
      unfold Lock.isRecursive at hrec
      simpa using hrec
    have hzero := h.count_eq_zero hget (hmay.2 hflag)
    omega
  · exact heq

/-- A release of what its context holds closes a transaction of this context. -/
theorem release_eq (h : m.Mirrors strip l) {key : Nat} {lock : Lock} {t : Transition}
    (hget : m.locks.get? key = some lock)
    (hhold : ⟨t.ctx, lock.address, t.op.side⟩ ∈ l.holds) :
    m.release key lock t =
      ((m.closeTxn key t.op.side t.ctx t.time false).2.modifyLock key Lock.popPosition).modifyLock
        key (·.endHold t.op.side) := by
  obtain ⟨owner, hholder, heq⟩ := h.inStep.release_of_held hget (h.count_pos hget hhold)
  rw [holder?_eq_self (h.hasAnchor hget hhold)] at hholder
  cases hholder
  exact heq

/-- Nothing is reported as the transaction of a hold is closed: all of the stack is backed, and
    no transaction of the lock stands for its other side. -/
theorem faithful_closeTxn (h : m.Mirrors strip l) {key : Nat} {lock : Lock} {ctx : Int64}
    {side : Side} (hget : m.locks.get? key = some lock)
    (hhold : ⟨ctx, lock.address, side⟩ ∈ l.holds) (time : UInt64) :
    (m.closeTxn key side ctx time false).2.Faithful strip l.kept := by
  have hopen : ∀ u ∈ m.stack ctx, u ∈ m.openTxns := by
    intro u hu
    exact mem_openTxns_iff.mpr ⟨ctx, hu⟩
  apply h.faithful.closeTxn h.backed
  apply LockStore.report_not_mem_unwindOutputs
  · intro u hu
    exact h.backed u (hopen u hu)
  · intro u hu hkey
    exact h.side_eq hget (h.count_pos hget hhold) (hopen u hu) hkey

theorem locks_release (h : m.Mirrors strip l) {key : Nat} {lock : Lock} {t : Transition}
    (hget : m.locks.get? key = some lock)
    (hhold : ⟨t.ctx, lock.address, t.op.side⟩ ∈ l.holds) :
    (m.release key lock t).locks =
      (m.locks.modify key Lock.popPosition).modify key (·.endHold t.op.side) := by
  have hclosed := m.locks_closeTxn key t.op.side t.ctx t.time false
  rw [h.release_eq hget hhold]
  unfold modifyLock
  rw [hclosed]

theorem anchor?_release (h : m.Mirrors strip l) {key : Nat} {lock : Lock} {t : Transition}
    (hget : m.locks.get? key = some lock)
    (hhold : ⟨t.ctx, lock.address, t.op.side⟩ ∈ l.holds) :
    (m.release key lock t).locks.anchor? = m.locks.anchor? := by
  funext u
  rw [h.locks_release hget hhold,
    LockStore.anchor?_modify _ key (fun l => l.same_endHold t.op.side),
    LockStore.anchor?_modify _ key (fun l => l.same_popPosition)]

theorem stack_release (h : m.Mirrors strip l) {key : Nat} {lock : Lock} {t : Transition}
    (hget : m.locks.get? key = some lock)
    (hhold : ⟨t.ctx, lock.address, t.op.side⟩ ∈ l.holds) (c : Int64) :
    (m.release key lock t).stack c =
      if t.ctx = c then (m.stack t.ctx).unwound key t.op.side t.time false m.txnIds.next
      else m.stack c := by
  rw [h.release_eq hget hhold]
  exact m.stack_closeTxn key t.op.side t.ctx t.time false c

/-- The lock loses its latest position and one hold, and the other locks stay. -/
theorem get?_release (h : m.Mirrors strip l) {key : Nat} {lock : Lock} {t : Transition}
    (hget : m.locks.get? key = some lock)
    (hhold : ⟨t.ctx, lock.address, t.op.side⟩ ∈ l.holds) (k : Nat) :
    (m.release key lock t).locks.get? k =
      if key = k then some (lock.popPosition.endHold t.op.side) else m.locks.get? k := by
  rw [h.locks_release hget hhold, LockStore.get?_modify, LockStore.get?_modify]
  split
  · next hk =>
    rw [← hk, hget]
    rfl
  · rfl

theorem release (h : m.Mirrors strip l) {key : Nat} {lock : Lock} {t : Transition}
    (hget : m.locks.get? key = some lock)
    (hhold : ⟨t.ctx, lock.address, t.op.side⟩ ∈ l.holds) :
    (m.release key lock t).Mirrors strip (l.drop ⟨t.ctx, lock.address, t.op.side⟩) := by
  have hanchor := h.hasAnchor hget hhold
  constructor
  · intro address
    rw [show (l.drop ⟨t.ctx, lock.address, t.op.side⟩).kinds = l.kinds from rfl, ← h.kinds,
      h.locks_release hget hhold,
      LockStore.kindAt?_modify _ key (fun l => l.kind_endHold t.op.side),
      LockStore.kindAt?_modify _ key (fun l => l.same_popPosition.kind)]
  · intro ctx
    have hheld := (l.held_drop_perm hhold ctx).map some
    rw [h.anchor?_release hget hhold, h.stack_release hget hhold]
    by_cases hctx : t.ctx = ctx
    · -- the stack and the ledger lose the same anchor
      rw [if_pos hctx] at hheld ⊢
      rw [← hctx] at hheld ⊢
      have hperm := m.locks.map_anchor?_unwound_perm hget t.time m.txnIds.next hanchor
      exact List.Perm.cons_inv ((hperm.symm.trans (h.anchors t.ctx)).trans hheld)
    · rw [if_neg hctx] at hheld ⊢
      exact (h.anchors ctx).trans hheld
  · exact h.inStep.release hget
  · have hclosed := h.faithful_closeTxn hget hhold t.time
    rw [h.release_eq hget hhold]
    exact (hclosed.modifyLock key fun l => l.same_popPosition).modifyLock key
      fun l => l.same_endHold t.op.side

theorem step_acquire (h : m.Mirrors strip l) {key : Nat} {lock : Lock} {t : Transition}
    {side : Side} (hop : t.op = .acquire side) (hget : m.locks.get? key = some lock)
    (hkind : lock.kind.supports side = true) (hmay : l.MayAcquire lock.address t.flags side) :
    m.step key t = ((m.modifyLock key (·.setFlags t.flags)).beginHold key t, none) ∧
      ((m.modifyLock key (·.setFlags t.flags)).beginHold key t).Mirrors strip
        (l.take ⟨t.ctx, lock.address, side⟩) := by
  have hside : t.op.side = side := by
    rw [hop]
    rfl
  rw [← hside] at hkind hmay ⊢
  have hlive : (m.modifyLock key (·.setFlags t.flags)).locks.get? key =
      some (lock.setFlags t.flags) := LockStore.get?_modify_self _ hget
  obtain ⟨heq, hmirrors⟩ := (h.setFlags key t.flags).acquire hlive hkind hmay
  refine ⟨?_, hmirrors⟩
  rw [step_of_supports hget hkind, hop]
  exact heq

theorem step_release (h : m.Mirrors strip l) {key : Nat} {lock : Lock} {t : Transition}
    {side : Side} (hop : t.op = .release side) (hget : m.locks.get? key = some lock)
    (hhold : ⟨t.ctx, lock.address, side⟩ ∈ l.holds) :
    m.step key t =
        ((m.modifyLock key (·.setFlags t.flags)).release key (lock.setFlags t.flags) t, none) ∧
      ((m.modifyLock key (·.setFlags t.flags)).release key (lock.setFlags t.flags) t).Mirrors strip
        (l.drop ⟨t.ctx, lock.address, side⟩) := by
  have hside : t.op.side = side := by
    rw [hop]
    rfl
  rw [← hside] at hhold ⊢
  have hkind := (h.inStep.oneSided key lock hget).supported t.op.side (h.count_pos hget hhold)
  have hlive : (m.modifyLock key (·.setFlags t.flags)).locks.get? key =
      some (lock.setFlags t.flags) := LockStore.get?_modify_self _ hget
  have hhold' : ⟨t.ctx, (lock.setFlags t.flags).address, t.op.side⟩ ∈ l.holds := hhold
  refine ⟨?_, (h.setFlags key t.flags).release hlive hhold'⟩
  rw [step_of_supports hget hkind, hop]

/-! ### Locks that come and go -/

/-- The stacks stay, and where their transactions are anchored. -/
theorem anchors_of_same (h : m.Mirrors strip l) {m' : Monitor}
    (hstack : ∀ c, m'.stack c = m.stack c)
    (hanchor : ∀ t ∈ m.openTxns, m'.locks.anchor? t = m.locks.anchor? t) (ctx : Int64) :
    ((m'.stack ctx).map m'.locks.anchor?).Perm ((l.held ctx).map some) := by
  have hmap : (m'.stack ctx).map m'.locks.anchor? = (m.stack ctx).map m.locks.anchor? := by
    rw [hstack]
    apply List.map_congr_left
    intro t ht
    exact hanchor t (mem_openTxns_iff.mpr ⟨ctx, ht⟩)
  rw [hmap]
  exact h.anchors ctx

/-- A lock that is new is not one of an open transaction. -/
theorem anchor?_withLock (h : m.Mirrors strip l) (address : UInt64) (label : String)
    (kind : LockKind) (flags : UInt32) (placement : Placement) {t : Txn} (ht : t ∈ m.openTxns) :
    (m.withLock address label kind flags placement).locks.anchor? t = m.locks.anchor? t := by
  obtain ⟨ctx, hctx⟩ := mem_openTxns_iff.mp ht
  obtain ⟨lock, hget, _⟩ := h.mem_held hctx
  have hkey : m.locks.keys.next ≠ t.lock :=
    Nat.ne_of_gt (h.faithful.ready.keyed.fresh t.lock lock hget)
  unfold LockStore.anchor?
  rw [get?_withLock, if_neg hkey]

/-- A lock that is new is held by no one. -/
theorem withLock (h : m.Mirrors strip l) {address : UInt64} (hnew : m.locks.find? address = none)
    (label : String) (kind : LockKind) (flags : UInt32) (placement : Placement) :
    (m.withLock address label kind flags placement).Mirrors strip
      { l with kinds := fun a => if address = a then some kind else l.kinds a } := by
  have hkeyed := h.faithful.ready.keyed
  have hsame : ∀ lock : Lock, lock.Same (lock.setFlags flags) :=
    fun lock => lock.same_setFlags flags
  have houtputs := m.outputs_withLock address label kind flags placement
  have hanchor : ∀ t ∈ m.openTxns,
      (m.withLock address label kind flags placement).locks.anchor? t = m.locks.anchor? t :=
    fun t ht => h.anchor?_withLock address label kind flags placement ht
  constructor
  · intro a
    refine (LockStore.kindAt?_modify _ _ (fun lock => (hsame lock).kind) a).trans ?_
    rw [hkeyed.kindAt?_create, h.kinds]
  · exact h.anchors_of_same (fun c => rfl) hanchor
  · exact h.inStep.withLock address label kind flags placement
  · have hmoves := (m.moves_withLock address label kind flags placement).weaken
    have hready : (m.withLock address label kind flags placement).Ready := {
      conserved := h.faithful.ready.conserved.moves hmoves
      ended := h.faithful.ready.ended.moves hmoves
      numbered := h.faithful.ready.numbered.withLock address label kind flags placement
      keyed := (hkeyed.create hnew label kind placement).modify _ fun lock => (hsame lock).address }
    apply h.faithful.keep hready (fun c => rfl) hanchor houtputs
    · intro o ho
      exact quiet_of_mem_lockRows ho
    · intro i hi
      obtain ⟨_, _, hrecord⟩ := List.mem_map.mp hi
      cases hrecord

theorem kinds_eq_some (h : m.Mirrors strip l) {key : Nat} {lock : Lock}
    (hget : m.locks.get? key = some lock) : l.kinds lock.address = some lock.kind := by
  rw [← h.kinds]
  exact h.faithful.ready.keyed.kindAt?_eq hget

theorem kinds_eq_none (h : m.Mirrors strip l) {address : UInt64}
    (hfind : m.locks.find? address = none) : l.kinds address = none := by
  rw [← h.kinds]
  unfold LockStore.kindAt?
  rw [hfind]
  rfl

/-- The lock of an event that the ledger supports is found or created. -/
theorem locate (h : m.Mirrors strip l) {e : Event} {side : Side} (hsupports : l.Supports e side)
    (flags : UInt32) (place : UInt64 → Placement) :
    ∃ key m' lock, m.findOrCreate e.address e.typeName flags place = .ok (key, m') ∧
      m'.Mirrors strip (l.locate e) ∧ m'.locks.get? key = some lock ∧ lock.address = e.address ∧
      lock.kind.supports side = true := by
  obtain ⟨kind, hkind, hside⟩ := Ledger.supports_iff.mp hsupports
  have hkeyed := h.faithful.ready.keyed
  unfold Ledger.kindFor at hkind
  rcases m.findOrCreate_cases e.address e.typeName flags place with
    ⟨key, hfind, heq⟩ | ⟨kind', hfind, hlabel, heq⟩ | ⟨hfind, hlabel, _⟩
  · obtain ⟨lock, hget, haddress⟩ := (hkeyed.find_iff e.address key).mp hfind
    have hknown : l.kinds e.address = some lock.kind := by
      rw [← haddress]
      exact h.kinds_eq_some hget
    rw [hknown, Option.some_or] at hkind
    cases hkind
    refine ⟨key, m, lock, heq, h.congr ?_ rfl rfl, hget, haddress, hside⟩
    funext a
    unfold Ledger.locate Ledger.kindFor
    simp only
    split
    · next ha => rw [← ha, hknown, Option.some_or]
    · rfl
  · have hknown := h.kinds_eq_none hfind
    rw [hknown, Option.none_or, hlabel] at hkind
    cases hkind
    refine ⟨m.locks.keys.next, _,
      (m.locks.newLock e.address e.typeName kind (place e.address)).setFlags flags, heq,
      (h.withLock hfind e.typeName kind flags (place e.address)).congr ?_ rfl rfl,
      ?_, rfl, ?_⟩
    · funext a
      unfold Ledger.locate Ledger.kindFor
      simp only
      rw [hknown, Option.none_or, hlabel]
    · rw [get?_withLock, if_pos rfl]
    · have hnew : ((m.locks.newLock e.address e.typeName kind (place e.address)).setFlags
          flags).kind = kind :=
        m.locks.kind_newLock e.address e.typeName kind (place e.address)
      rw [hnew]
      exact hside
  · have hknown := h.kinds_eq_none hfind
    rw [hknown, Option.none_or, hlabel] at hkind
    cases hkind

section FreeRange

variable {base size : UInt64} (time : UInt64)
  (hfree : ∀ hold ∈ l.holds, ¬ LockStore.InRange base size hold.address)

include hfree

/-- A lock in memory that may be freed is not held. -/
theorem isHeld_eq_false (h : m.Mirrors strip l) {key : Nat} {lock : Lock}
    (hget : m.locks.get? key = some lock) (hrange : LockStore.InRange base size lock.address) :
    lock.isHeld = false := by
  apply Bool.eq_false_iff.mpr
  intro hheld
  obtain ⟨side, hpos⟩ := Lock.count_pos_of_isHeld hheld
  by_cases hout : l.Outstanding lock.address side
  · obtain ⟨hold, hhold, haddress, _⟩ := hout
    rw [← haddress] at hrange
    exact hfree hold hhold hrange
  · have hzero := h.count_eq_zero hget hout
    omega

theorem reports_freeRange (h : m.Mirrors strip l) :
    (m.locks.freeRange base size time).reports = [] := by
  apply List.filterMap_eq_nil_iff.mpr
  intro e he
  obtain ⟨hfind, hrange⟩ := (m.locks.mem_between_iff base size e.1 e.2).mp he
  obtain ⟨lock, hget, haddress⟩ := (h.faithful.ready.keyed.find_iff e.1 e.2).mp hfind
  rw [← haddress] at hrange
  have hidle := h.isHeld_eq_false hfree hget hrange
  rw [hget, Option.bind_some]
  unfold LockStore.freedReport?
  rw [hidle]
  rfl

theorem anchor?_freeRange (h : m.Mirrors strip l) {t : Txn} (ht : t ∈ m.openTxns) :
    (m.freeRange base size time).2.locks.anchor? t = m.locks.anchor? t := by
  obtain ⟨ctx, hctx⟩ := mem_openTxns_iff.mp ht
  obtain ⟨lock, hget, hheld⟩ := h.mem_held hctx
  have hout := hfree _ (l.mem_held_iff.mp hheld)
  have hlive := h.faithful.ready.keyed.get?_freeRange base size time t.lock
  rw [hget, Option.filter_some, if_pos (decide_eq_true hout)] at hlive
  unfold LockStore.anchor?
  rw [hget]
  exact congrArg _ hlive

/-- Memory in which no lock is held is freed without a report. -/
theorem freeRange (h : m.Mirrors strip l) :
    (m.freeRange base size time).2.Mirrors strip (l.forget base size) := by
  have hkeyed := h.faithful.ready.keyed
  have houtputs : (m.freeRange base size time).2.outputs = m.outputs ++ [] := by
    rw [outputs_freeRange, h.reports_freeRange time hfree]
    rfl
  have hanchor : ∀ t ∈ m.openTxns,
      (m.freeRange base size time).2.locks.anchor? t = m.locks.anchor? t := by
    intro t ht
    exact h.anchor?_freeRange time hfree ht
  constructor
  · intro a
    refine (hkeyed.kindAt?_freeRange base size time a).trans ?_
    rw [h.kinds]
    rfl
  · exact h.anchors_of_same (fun c => rfl) hanchor
  · exact h.inStep.freeRange base size time
  · have hready : (m.freeRange base size time).2.Ready := by
      apply h.faithful.ready.of_same (m.moves_freeRange base size time).weaken
      · rw [lockTable_of_append houtputs]
        exact List.append_nil _
      · exact LockStore.subLockIds_freeRange m.locks base size time
      · intro key lock hget
        have hbefore : m.locks.get? key = some lock :=
          @LockStore.get?_of_get?_freeRange m.locks base size time key lock hget
        exact ⟨lock, hbefore, .refl lock⟩
      · exact hkeyed.freeRange base size time
    apply h.faithful.keep hready (fun c => rfl) hanchor houtputs
    · intro o ho
      cases ho
    · intro i hi
      cases hi

end FreeRange

end Mirrors

end Monitor

end LockTrace
