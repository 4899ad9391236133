import LockTrace.Proofs.Conservation
import LockTrace.Proofs.Following

/-!
# Which transactions are purged

A writer that acquires a lock held by readers takes it away from them. Of the transactions of
the readers on one stack only the innermost is closed and written. Those that lie below it,
where one context has acquired the reader's side several times, are purged: they end and
leave no row, whether or not they had accesses.

This is the only way in which a transaction is purged, and it spares none of those below
(`mem_purgedIds_step_iff`).
-/

namespace LockTrace

namespace Output

/-- The number of the transaction that an output says was purged. -/
def purgedId? : Output → Option Nat
  | .remark (.purged id _ _) => some id
  | _ => none

theorem closedId?_of_purgedId? {o : Output} {i : Nat} (h : o.purgedId? = some i) :
    o.closedId? = some i := by
  unfold purgedId? at h
  split at h
  · exact h
  · cases h

theorem purgedId?_eq_none {o : Output} (h : o.closedId? = none) : o.purgedId? = none := by
  cases hpurged : o.purgedId? with
  | none => rfl
  | some i => rw [closedId?_of_purgedId? hpurged] at h; cases h

end Output

/-! ### Transactions below others -/

namespace TxnStack

/-- A reader's transaction of the lock `key` with number `i` lies below a transaction of the
    sub-lock (`key`, `side`). -/
def Covers (s : TxnStack) (key : Nat) (side : Side) (i : Nat) : Prop :=
  ∃ above t below, s = above ++ t :: below ∧ t.id = i ∧ t.AnchoredAt key .reader ∧
    HasAnchor above key side

theorem covers_cons {top : Txn} {below : TxnStack} {key : Nat} {side : Side} {i : Nat} :
    Covers (top :: below) key side i ↔
      (top.AnchoredAt key side ∧ ∃ t ∈ below, t.id = i ∧ t.AnchoredAt key .reader) ∨
        Covers below key side i := by
  constructor
  · rintro ⟨above, t, rest, hsplit, hid, hreader, hanchor⟩
    cases above with
    | nil =>
      obtain ⟨u, hu, _⟩ := hanchor
      cases hu
    | cons first above =>
      rw [List.cons_append, List.cons.injEq] at hsplit
      obtain ⟨rfl, rfl⟩ := hsplit
      rcases hasAnchor_cons.mp hanchor with hfirst | hanchor
      · exact Or.inl ⟨hfirst, t, by simp, hid, hreader⟩
      · exact Or.inr ⟨above, t, rest, rfl, hid, hreader, hanchor⟩
  · rintro (⟨htop, t, ht, hid, hreader⟩ | ⟨above, t, rest, rfl, hid, hreader, hanchor⟩)
    · obtain ⟨above, rest, rfl⟩ := List.append_of_mem ht
      exact ⟨top :: above, t, rest, rfl, hid, hreader, hasAnchor_cons.mpr (Or.inl htop)⟩
    · exact ⟨top :: above, t, rest, rfl, hid, hreader, hasAnchor_cons.mpr (Or.inr hanchor)⟩

theorem exists_reader_of_covers {s : TxnStack} {key : Nat} {side : Side} {i : Nat}
    (h : s.Covers key side i) : ∃ t ∈ s, t.id = i ∧ t.AnchoredAt key .reader := by
  obtain ⟨above, t, below, rfl, hid, hreader, _⟩ := h
  exact ⟨t, by simp, hid, hreader⟩

/-- The counts of accesses do not matter. -/
theorem covers_map_shape {s : TxnStack} {key : Nat} {side : Side} {i : Nat} :
    Covers (s.map Txn.shape) key side i ↔ Covers s key side i := by
  induction s with
  | nil => exact Iff.rfl
  | cons top below ih =>
    rw [List.map_cons, covers_cons, covers_cons, ih]
    refine or_congr (and_congr Iff.rfl ⟨?_, ?_⟩) Iff.rfl
    · rintro ⟨t, ht, hid, hreader⟩
      obtain ⟨u, hu, rfl⟩ := List.mem_map.mp ht
      exact ⟨u, hu, hid, hreader⟩
    · rintro ⟨t, ht, hid, hreader⟩
      exact ⟨t.shape, List.mem_map_of_mem ht, hid, hreader⟩

end TxnStack

/-! ### What unwinding purges -/

namespace LockStore

section Unwind

variable (locks : LockStore) (skipEmpty : Bool) (key : Nat) (side : Side) (ctx : Int64)
  (time : UInt64) (purge : Bool)

theorem purgedIds_closeOutputs (top : Txn) (below : TxnStack) :
    (locks.closeOutputs skipEmpty time top below).filterMap Output.purgedId? = [] := by
  unfold closeOutputs
  split
  · rfl
  · apply List.filterMap_eq_nil_iff.mpr
    intro o ho
    rcases List.mem_cons.mp ho with rfl | ho
    · rfl
    · exact Output.purgedId?_eq_none (closedId?_of_mem_heldOutputs locks time ho)

theorem purgedIds_mismatchOutputs (top : Txn) :
    (locks.mismatchOutputs key time top).filterMap Output.purgedId? = [] := by
  unfold mismatchOutputs
  split <;> rfl

theorem mem_purgedIds_purgeOutputs {s : TxnStack} {i : Nat} :
    i ∈ (locks.purgeOutputs key ctx time s).filterMap Output.purgedId? ↔
      ∃ t ∈ s, t.id = i ∧ t.AnchoredAt key .reader := by
  unfold purgeOutputs
  rw [List.filterMap_append, List.filterMap_map, List.filterMap_map]
  have hreports : ∀ ts : List Txn, ts.filterMap (Output.purgedId? ∘ fun _ =>
      Output.report (.multipleWriterTxns (locks.describe key .writer) time ctx)) = [] :=
    fun ts => List.filterMap_eq_nil_iff.mpr fun _ _ => rfl
  rw [hreports, List.append_nil, List.mem_filterMap]
  constructor
  · rintro ⟨t, ht, hid⟩
    obtain ⟨hmem, hreader⟩ := List.mem_filter.mp (List.mem_reverse.mp ht)
    exact ⟨t, hmem, Option.some.inj hid, of_decide_eq_true hreader⟩
  · rintro ⟨t, ht, rfl, hreader⟩
    exact ⟨t, List.mem_reverse.mpr (List.mem_filter.mpr ⟨ht, decide_eq_true hreader⟩), rfl⟩

/-- Unwinding purges what lies below the transaction that is closed, if it purges at all. -/
theorem mem_purgedIds_unwindOutputs {s : TxnStack} {i : Nat} :
    i ∈ (locks.unwindOutputs skipEmpty key side ctx time purge s).filterMap Output.purgedId? ↔
      purge = true ∧ s.Covers key side i := by
  induction s with
  | nil =>
    constructor
    · intro h
      cases h
    · rintro ⟨_, above, t, below, hsplit, _⟩
      cases above <;> cases hsplit
  | cons top below ih =>
    rw [unwindOutputs, List.filterMap_append, purgedIds_closeOutputs, List.nil_append,
      TxnStack.covers_cons]
    split
    · next hanchor =>
      cases purge with
      | false => simp
      | true =>
        simp only [if_true, true_and]
        rw [mem_purgedIds_purgeOutputs]
        constructor
        · exact fun h => Or.inl ⟨hanchor, h⟩
        · rintro (⟨_, h⟩ | hcovers)
          · exact h
          · exact TxnStack.exists_reader_of_covers hcovers
    · next hanchor =>
      rw [List.filterMap_append, purgedIds_mismatchOutputs, List.nil_append, ih]
      simp [hanchor]

end Unwind

end LockStore

namespace Monitor

/-- The numbers of the transactions that were purged. -/
def purgedIds (m : Monitor) : List Nat := m.outputs.filterMap Output.purgedId?

theorem purgedIds_withOutputs (m : Monitor) {os : List Output} (hquiet : ∀ o ∈ os, o.Quiet) :
    (m.withOutputs os).purgedIds = m.purgedIds := by
  have hnone : os.filterMap Output.purgedId? = [] :=
    List.filterMap_eq_nil_iff.mpr fun o ho =>
      Output.purgedId?_eq_none (hquiet o ho).closedId?_eq_none
  unfold purgedIds
  rw [outputs_withOutputs, List.filterMap_append, hnone, List.append_nil]

theorem purgedIds_report (m : Monitor) (fault : Inconsistency) :
    (m.report fault).purgedIds = m.purgedIds := by
  rw [report_eq_withOutputs]
  apply m.purgedIds_withOutputs
  intro o ho
  rw [List.mem_singleton.mp ho]
  trivial

theorem mem_purgedIds_closeTxn {m : Monitor} {key : Nat} {side : Side} {ctx : Int64}
    {time : UInt64} {purge : Bool} {i : Nat} :
    i ∈ (m.closeTxn key side ctx time purge).2.purgedIds ↔
      i ∈ m.purgedIds ∨ purge = true ∧ (m.stack ctx).Covers key side i := by
  unfold purgedIds
  rw [outputs_closeTxn, List.filterMap_append, List.mem_append,
    LockStore.mem_purgedIds_unwindOutputs]

/-- Where nothing is purged on the way, nothing more is purged in the end. -/
theorem Moves.mem_purgedIds {m m' : Monitor} (h : Moves false m m') (i : Nat) :
    i ∈ m'.purgedIds ↔ i ∈ m.purgedIds := by
  induction h with
  | refl => exact Iff.rfl
  | outputs os _ hquiet ih =>
    rw [purgedIds_withOutputs _ hquiet]
    exact ih
  | locks locks _ ih => exact ih
  | openTxn key side ctx time _ ih => exact ih
  | closeTxn key side ctx time purge _ hpurge ih =>
    have hnot : purge ≠ true := fun h => by cases hpurge h
    rw [mem_purgedIds_closeTxn, ih]
    simp [hnot]
  | @access m' ctx row _ _ ih =>
    have hsame : ((m'.countAccess ctx).write (.access row)).purgedIds = m'.purgedIds := by
      unfold purgedIds
      rw [outputs_write, List.filterMap_append]
      exact List.append_nil _
    rw [hsame]
    exact ih

/-! ### What taking a lock away purges -/

theorem not_covers_of_countAnchored {m : Monitor} {key : Nat}
    (hfree : m.countAnchored key .reader = 0) (ctx : Int64) (side : Side) (i : Nat) :
    ¬ (m.stack ctx).Covers key side i := by
  intro hcovers
  obtain ⟨u, hu, _, hreader⟩ := TxnStack.exists_reader_of_covers hcovers
  have hpos := TxnStack.countAnchored_pos_iff.mpr ⟨u, hu, hreader⟩
  have hle := countAnchored_stack_le m ctx key .reader
  omega

/-- The readers of a lock lose their transactions context by context. A stack that was not
    visited yet is as it was; one that was has no reader's transaction of the lock left, and
    what lay below the closed one is purged. -/
structure TakesFromReaders (m m' : Monitor) (key : Nat) : Prop where
  keeps : ∀ i, i ∈ m.purgedIds → i ∈ m'.purgedIds
  covered : ∀ i, i ∈ m'.purgedIds → i ∈ m.purgedIds ∨ ∃ ctx, (m.stack ctx).Covers key .reader i
  visited : ∀ ctx, m'.stack ctx = m.stack ctx ∨
    (m'.stack ctx).countAnchored key .reader = 0 ∧
      ∀ i, (m.stack ctx).Covers key .reader i → i ∈ m'.purgedIds

namespace TakesFromReaders

variable {m m' : Monitor} {key : Nat}

theorem refl : m.TakesFromReaders m key where
  keeps _ h := h
  covered _ h := Or.inl h
  visited _ := Or.inl rfl

theorem report (h : m.TakesFromReaders m' key) (fault : Inconsistency) :
    m.TakesFromReaders (m'.report fault) key := by
  constructor
  · rw [purgedIds_report]
    exact h.keeps
  · rw [purgedIds_report]
    exact h.covered
  · rw [purgedIds_report]
    exact h.visited

/-- A stack with a reader's transaction of the lock was not visited yet. -/
theorem stack_eq (h : m.TakesFromReaders m' key) {ctx : Int64}
    (hanchor : (m'.stack ctx).HasAnchor key .reader) : m'.stack ctx = m.stack ctx := by
  rcases h.visited ctx with heq | ⟨hzero, _⟩
  · exact heq
  · exact absurd hanchor (TxnStack.countAnchored_eq_zero_iff.mp hzero)

theorem closeTxn (h : m.TakesFromReaders m' key) {owner : Int64}
    (hanchor : (m'.stack owner).HasAnchor key .reader) (time : UInt64) :
    m.TakesFromReaders (m'.closeTxn key .reader owner time true).2 key := by
  have howner := h.stack_eq hanchor
  constructor
  · intro i hi
    exact mem_purgedIds_closeTxn.mpr (Or.inl (h.keeps i hi))
  · intro i hi
    rcases mem_purgedIds_closeTxn.mp hi with hi | ⟨_, hcovers⟩
    · exact h.covered i hi
    · rw [howner] at hcovers
      exact Or.inr ⟨owner, hcovers⟩
  · intro ctx
    rw [stack_closeTxn]
    by_cases hctx : owner = ctx
    · subst hctx
      rw [if_pos rfl]
      refine Or.inr ⟨TxnStack.countAnchored_unwound_purge time key _ _, ?_⟩
      intro i hi
      rw [← howner] at hi
      exact mem_purgedIds_closeTxn.mpr (Or.inr ⟨rfl, hi⟩)
    · rw [if_neg hctx]
      rcases h.visited ctx with heq | ⟨hzero, hall⟩
      · exact Or.inl heq
      · refine Or.inr ⟨hzero, ?_⟩
        intro i hi
        exact mem_purgedIds_closeTxn.mpr (Or.inl (hall i hi))

/-- Where no reader's transaction of the lock is left, what lay below others is purged. -/
theorem mem_purgedIds_iff (h : m.TakesFromReaders m' key)
    (hzero : m'.countAnchored key .reader = 0) (i : Nat) :
    i ∈ m'.purgedIds ↔ i ∈ m.purgedIds ∨ ∃ ctx, (m.stack ctx).Covers key .reader i := by
  constructor
  · exact h.covered i
  · rintro (hi | ⟨ctx, hcovers⟩)
    · exact h.keeps i hi
    · rcases h.visited ctx with heq | ⟨_, hall⟩
      · -- this stack has a reader's transaction of the lock, so it was visited
        rw [← heq] at hcovers
        exact absurd hcovers (not_covers_of_countAnchored hzero ctx .reader i)
      · exact hall i hcovers

end TakesFromReaders

section Evict

variable {m : Monitor} {key : Nat} {lock : Lock} {t : Transition}

theorem mem_purgedIds_evict_writer (hop : t.op.side = .writer) (i : Nat) :
    i ∈ (m.evict key lock t).purgedIds ↔
      i ∈ m.purgedIds ∨ ∃ ctx, (m.stack ctx).Covers key .reader i := by
  have hother : t.op.side.other = .reader := by
    rw [hop]
    rfl
  have htakes : m.TakesFromReaders (m.evict key lock t) key := by
    apply evict_induction (P := fun m' => m.TakesFromReaders m' key) _ _ .refl
    · intro m' fault h
      exact h.report fault
    · intro m' owner h hanchor
      rw [hother] at hanchor ⊢
      exact h.closeTxn hanchor t.time
  have hzero : (m.evict key lock t).countAnchored key .reader = 0 := by
    rw [← hother]
    exact countAnchored_evict_other m key lock t
  exact htakes.mem_purgedIds_iff hzero i

/-- A reader that takes a lock away from a writer finds no readers below. -/
theorem mem_purgedIds_evict_reader (hfree : m.countAnchored key .reader = 0) (i : Nat) :
    i ∈ (m.evict key lock t).purgedIds ↔ i ∈ m.purgedIds := by
  have hboth : (m.evict key lock t).countAnchored key .reader = 0 ∧
      (i ∈ (m.evict key lock t).purgedIds ↔ i ∈ m.purgedIds) := by
    refine evict_induction (P := fun m' => m'.countAnchored key .reader = 0 ∧
      (i ∈ m'.purgedIds ↔ i ∈ m.purgedIds)) ?_ ?_ ⟨hfree, Iff.rfl⟩
    · intro m' fault ⟨hzero, hsame⟩
      refine ⟨hzero, ?_⟩
      rw [purgedIds_report]
      exact hsame
    · intro m' owner ⟨hzero, hsame⟩ _
      constructor
      · exact countAnchored_closeTxn_eq_zero hzero t.op.side.other owner t.time true
      · have hnone := not_covers_of_countAnchored hzero owner t.op.side.other i
        rw [mem_purgedIds_closeTxn, hsame]
        exact ⟨fun h => h.resolve_right fun hpurged => hnone hpurged.2, Or.inl⟩
  exact hboth.2

end Evict

/-! ### What an operation purges -/

/-- Readers hold a lock that has a writer's side as well. -/
def HeldByReaders (m : Monitor) (key : Nat) : Prop :=
  ∃ lock, m.locks.get? key = some lock ∧ lock.kind.supports .writer = true ∧ 0 < lock.readers

/-- The stacks and the journal on which a lock is taken away are those before the operation. -/
theorem mem_purgedIds_preempt {m : Monitor} {key : Nat} {lock : Lock}
    (hget : m.locks.get? key = some lock) (t : Transition) (i : Nat) :
    i ∈ ((m.preempt key lock t).beginHold key t).purgedIds ↔
      i ∈ (m.evict key lock t).purgedIds := by
  have hlive : (m.evict key lock t).locks.get? key = some lock := by
    rw [locks_evict]
    exact hget
  obtain ⟨reports, heq⟩ := m.preempt_eq key lock t hlive
  have hmoves : Moves false (m.evict key lock t) ((m.preempt key lock t).beginHold key t) := by
    rw [heq]
    apply Moves.beginHold
    apply (Moves.refl.modifyLock key _).outputs
    intro o ho
    obtain ⟨fault, _, rfl⟩ := List.mem_map.mp ho
    trivial
  exact hmoves.mem_purgedIds i

/-- An operation purges a transaction exactly if it acquires the writer's side of a lock that
    readers hold, and the transaction is a reader's one below another of the same lock. -/
theorem mem_purgedIds_step_iff {m : Monitor} (hm : m.InStep) (key : Nat) (t : Transition)
    (i : Nat) :
    i ∈ (m.step key t).1.purgedIds ↔ i ∈ m.purgedIds ∨
      (t.op = .acquire .writer ∧ m.HeldByReaders key ∧
        ∃ ctx, (m.stack ctx).Covers key .reader i) := by
  by_cases htakes : t.op = .acquire .writer ∧ m.HeldByReaders key
  · obtain ⟨hop, hheld⟩ := htakes
    obtain ⟨lock, hget, hkind, hreaders⟩ := id hheld
    have hfree : lock.count .writer = 0 := (hm.oneSided key lock hget).exclusive .reader hreaders
    have hlive : (m.modifyLock key (·.setFlags t.flags)).locks.get? key =
        some (lock.setFlags t.flags) := LockStore.get?_modify_self _ hget
    have hside : t.op.side = .writer := by
      rw [hop]
      rfl
    rw [step_of_otherSideHeld hget hop hkind hfree hreaders, mem_purgedIds_preempt hlive,
      mem_purgedIds_evict_writer hside]
    exact or_congr Iff.rfl ⟨fun h => ⟨hop, hheld, h⟩, fun h => h.2.2⟩
  · have hnone : i ∈ (m.step key t).1.purgedIds ↔ i ∈ m.purgedIds := by
      rcases m.moves_step key t with
        hmoves | ⟨lock, m₁, hget, hm₁, hacquire, hkind, hfree, hother, heq⟩
      · exact hmoves.mem_purgedIds i
      · cases hop : t.op with
        | release side =>
          rw [hop] at hacquire
          cases hacquire
        | acquire side =>
          rw [hop] at hkind hfree hother
          cases side with
          | writer => exact absurd ⟨hop, lock, hget, hkind, hother⟩ htakes
          | reader =>
            have hlive : m₁.locks.get? key = some (lock.setFlags t.flags) := by
              rw [hm₁]
              exact LockStore.get?_modify_self _ hget
            have hzero : m₁.countAnchored key .reader = 0 := by
              rw [hm₁]
              exact (hm.counts key lock hget .reader).symm.trans hfree
            rw [heq, mem_purgedIds_preempt hlive, mem_purgedIds_evict_reader hzero, hm₁]
            exact Iff.rfl
    rw [hnone]
    exact ⟨Or.inl, fun h => h.resolve_right fun hnew => htakes ⟨hnew.1, hnew.2.1⟩⟩

end Monitor

/-! ### What an event drops -/

namespace Session

/-- The event drops the transaction `i`: it acquires the writer's side of a lock that readers
    hold, and `i` is a reader's transaction of the lock below another one of it. -/
def Drops (s : Session) (e : Event) (i : Nat) : Prop :=
  ∃ key irqSync flags, e.operation = .acquire .writer irqSync flags ∧ e.typeName ∉ ignoredTypes ∧
    s.monitor.locks.find? e.address = some key ∧ s.monitor.HeldByReaders key ∧
    ∃ ctx, (s.monitor.stack ctx).Covers key .reader i

section Flush

variable {s : Session} {lock : Option (UInt64 × Int64)}

theorem covers_flush {ctx : Int64} {key : Nat} {side : Side} {i : Nat} :
    ((s.flush lock).monitor.stack ctx).Covers key side i ↔
      (s.monitor.stack ctx).Covers key side i := by
  rw [← TxnStack.covers_map_shape, map_shape_flush, TxnStack.covers_map_shape]

theorem heldByReaders_flush {key : Nat} :
    (s.flush lock).monitor.HeldByReaders key ↔ s.monitor.HeldByReaders key := by
  unfold Monitor.HeldByReaders
  rw [locks_flush]

end Flush

/-- A lock that is created, or not known, is held by no one. -/
theorem mem_purgedIds_lockEvent_of_find? {s : Session} (hs : s.monitor.InStep) {e : Event}
    (hfind : s.monitor.locks.find? e.address = none) (op : LockOp) (irqSync : IrqSync)
    (flags : UInt32) (i : Nat) :
    i ∈ (s.lockEvent e op irqSync flags).1.monitor.purgedIds ↔ i ∈ s.monitor.purgedIds := by
  unfold lockEvent
  split
  · exact (Monitor.Moves.refl.report _).mem_purgedIds i
  · rcases s.monitor.findOrCreate_cases e.address e.typeName flags s.place with
      ⟨key, hkey, _⟩ | ⟨kind, _, _, heq⟩ | ⟨_, _, heq⟩
    · rw [hfind] at hkey
      cases hkey
    · rw [heq]
      have hnew := hs.withLock e.address e.typeName kind flags (s.place e.address)
      refine (Monitor.mem_purgedIds_step_iff hnew _ _ i).trans ?_
      have hsame := (s.monitor.moves_withLock e.address e.typeName kind flags
        (s.place e.address)).mem_purgedIds i
      rw [hsame]
      refine ⟨fun h => h.resolve_right ?_, Or.inl⟩
      rintro ⟨_, _, ctx, hcovers⟩
      have hzero := hs.unused s.monitor.locks.keys.next (Nat.le_refl _) .reader
      exact Monitor.not_covers_of_countAnchored hzero ctx .reader i hcovers
    · rw [heq]

/-- A lock operation purges what the operation of the monitor purges. -/
theorem mem_purgedIds_lockEvent {s : Session} (hs : s.monitor.InStep) (e : Event) (op : LockOp)
    (irqSync : IrqSync) (flags : UInt32) (i : Nat) :
    i ∈ (s.lockEvent e op irqSync flags).1.monitor.purgedIds ↔ i ∈ s.monitor.purgedIds ∨
      ∃ key, op = .acquire .writer ∧ s.monitor.locks.find? e.address = some key ∧
        s.monitor.HeldByReaders key ∧ ∃ ctx, (s.monitor.stack ctx).Covers key .reader i := by
  cases hfind : s.monitor.locks.find? e.address with
  | none =>
    rw [mem_purgedIds_lockEvent_of_find? hs hfind]
    simp
  | some key =>
    have hlive : ¬ (op.isAcquire = false ∧ s.monitor.locks.find? e.address = none) := by
      rw [hfind]
      simp
    unfold lockEvent
    rw [if_neg hlive, Monitor.findOrCreate_of_find? hfind]
    refine (Monitor.mem_purgedIds_step_iff hs key _ i).trans (or_congr Iff.rfl ⟨?_, ?_⟩)
    · rintro ⟨hop, hheld, hcovers⟩
      exact ⟨key, hop, rfl, hheld, hcovers⟩
    · rintro ⟨k, hop, hk, hheld, hcovers⟩
      cases hk
      exact ⟨hop, hheld, hcovers⟩

theorem mem_purgedIds_flushedLockEvent {s : Session} (hs : s.monitor.InStep) (e : Event)
    (op : LockOp) (irqSync : IrqSync) (flags : UInt32) (i : Nat) :
    i ∈ (s.flushedLockEvent e op irqSync flags).1.monitor.purgedIds ↔ i ∈ s.monitor.purgedIds ∨
      ∃ key, op = .acquire .writer ∧ e.typeName ∉ ignoredTypes ∧
        s.monitor.locks.find? e.address = some key ∧ s.monitor.HeldByReaders key ∧
        ∃ ctx, (s.monitor.stack ctx).Covers key .reader i := by
  unfold flushedLockEvent
  split
  · next hignored => simp [hignored]
  · next hignored =>
    rw [mem_purgedIds_lockEvent (kept_inStep.flush hs _), (s.moves_flush _).mem_purgedIds,
      locks_flush]
    simp only [heldByReaders_flush, covers_flush, hignored, not_false_eq_true, true_and]

theorem mem_purgedIds_of_moves {s s' : Session} (h : Monitor.Moves false s.monitor s'.monitor)
    {e : Event} (hop : ∀ irqSync flags, e.operation ≠ .acquire .writer irqSync flags) (i : Nat) :
    i ∈ s'.monitor.purgedIds ↔ i ∈ s.monitor.purgedIds ∨ s.Drops e i := by
  rw [h.mem_purgedIds]
  refine ⟨Or.inl, fun h => h.resolve_right ?_⟩
  rintro ⟨_, irqSync, flags, heq, _⟩
  exact hop irqSync flags heq

/-- An event purges exactly the transactions that it drops. -/
theorem mem_purgedIds_step {s : Session} (hs : s.monitor.InStep) (e : Event) (i : Nat) :
    i ∈ (s.step e).1.monitor.purgedIds ↔ i ∈ s.monitor.purgedIds ∨ s.Drops e i := by
  have hnote : (s.note e).monitor.InStep := hs
  cases hop : e.operation with
  | access kind size =>
    apply mem_purgedIds_of_moves _ (by simp [hop])
    unfold step
    rw [hop]
    exact .refl
  | alloc size =>
    apply mem_purgedIds_of_moves _ (by simp [hop])
    unfold step
    rw [hop]
    exact ((s.note e).moves_flush none).trans (moves_allocEvent _ e _)
  | free =>
    apply mem_purgedIds_of_moves _ (by simp [hop])
    unfold step
    rw [hop]
    exact ((s.note e).moves_flush none).trans (moves_freeEvent _ e)
  | acquire side irqSync flags =>
    have hstep : (s.step e).1 =
        ((s.note e).flushedLockEvent e (.acquire side) irqSync flags).1 := by
      unfold step
      rw [hop]
    rw [hstep, mem_purgedIds_flushedLockEvent hnote]
    refine or_congr Iff.rfl ⟨?_, ?_⟩
    · rintro ⟨key, hside, hrest⟩
      cases hside
      exact ⟨key, irqSync, flags, hop, hrest⟩
    · rintro ⟨key, irqSync', flags', heq, hrest⟩
      rw [hop] at heq
      cases heq
      exact ⟨key, rfl, hrest⟩
  | release side flags =>
    have hstep : (s.step e).1 = ((s.note e).flushedLockEvent e (.release side) .none flags).1 := by
      unfold step
      rw [hop]
    rw [hstep, mem_purgedIds_flushedLockEvent hnote]
    refine or_congr Iff.rfl ⟨?_, ?_⟩
    · rintro ⟨_, hside, _⟩
      cases hside
    · rintro ⟨_, _, _, heq, _⟩
      rw [hop] at heq
      cases heq

/-- Somewhere on the way an event drops the transaction `i`. -/
def DropsIn (s : Session) (es : List Event) (i : Nat) : Prop :=
  ∃ earlier e later, es = earlier ++ e :: later ∧ (s.run earlier).1.Drops e i

theorem dropsIn_cons {s s' : Session} {e : Event} (h : s.step e = (s', none)) (es : List Event)
    (i : Nat) : s.DropsIn (e :: es) i ↔ s.Drops e i ∨ s'.DropsIn es i := by
  constructor
  · rintro ⟨earlier, e', later, hsplit, hdrops⟩
    cases earlier with
    | nil =>
      cases hsplit
      exact Or.inl hdrops
    | cons first earlier =>
      rw [List.cons_append, List.cons.injEq] at hsplit
      obtain ⟨rfl, rfl⟩ := hsplit
      rw [run_cons h] at hdrops
      exact Or.inr ⟨earlier, e', later, rfl, hdrops⟩
  · rintro (hdrops | ⟨earlier, e', later, rfl, hdrops⟩)
    · exact ⟨[], e, es, rfl, hdrops⟩
    · refine ⟨e :: earlier, e', later, rfl, ?_⟩
      rw [run_cons h]
      exact hdrops

/-- A run that comes to its end purges exactly the transactions that its events drop. -/
theorem mem_purgedIds_run {s s' : Session} (hs : s.monitor.InStep) {es : List Event}
    (hrun : s.run es = (s', none)) (i : Nat) :
    i ∈ s'.monitor.purgedIds ↔ i ∈ s.monitor.purgedIds ∨ s.DropsIn es i := by
  induction es generalizing s with
  | nil =>
    cases hrun
    refine ⟨Or.inl, fun h => h.resolve_right ?_⟩
    rintro ⟨earlier, e, later, hsplit, _⟩
    cases earlier <;> cases hsplit
  | cons e es ih =>
    have hin := kept_inStep.event hs e
    have hpurged := mem_purgedIds_step hs e i
    cases hstep : s.step e with
    | mk s₁ stop =>
      cases stop with
      | some cause =>
        rw [run, hstep] at hrun
        cases hrun
      | none =>
        rw [run_cons hstep] at hrun
        rw [hstep] at hin hpurged
        rw [ih hin hrun, hpurged, dropsIn_cons hstep, or_assoc]

end Session

end LockTrace
