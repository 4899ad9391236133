import LockTrace.Proofs.Purging

/-!
# Accesses and the rows of their transactions

The row of an access names the transaction that was the innermost one of its context. That
transaction has an access from then on, so it is never suppressed: it is open, or its row is
written, or it was purged (`Accounted`). At the end of a trace no transaction is open. So an
access points at a missing transaction in one case only, which is that the transaction was
dropped when a writer took its lock away.
-/

namespace LockTrace

/-! ### The table of transactions -/

/-- The number of the transaction of which a record is the row. -/
def Record.txnId? : Record → Option Nat
  | .txn row => some row.id
  | _ => none

/-- The numbers in the table of transactions, in the order of its rows. -/
def Journal.txnRowIds (j : Journal) : List Nat := j.records.filterMap Record.txnId?

namespace Monitor

/-- The outputs that end a transaction `i` are one output. -/
theorem Conserved.eq_of_closedId? {m : Monitor} (h : m.Conserved) {o o' : Output} {i : Nat}
    (ho : o ∈ m.outputs) (ho' : o' ∈ m.outputs) (hi : o.closedId? = some i)
    (hi' : o'.closedId? = some i) : o = o' := by
  have hpair := List.pairwise_filterMap.mp (List.nodup_append.mp h.nodup).1
  by_cases heq : o = o'
  · exact heq
  · -- of two different outputs one comes first, and then they end different transactions
    obtain ⟨before, after, hsplit⟩ := List.append_of_mem ho
    rw [hsplit] at ho' hpair
    obtain ⟨_, hafter, hbefore⟩ := List.pairwise_append.mp hpair
    rcases List.mem_append.mp ho' with hmem | hmem
    · exact absurd rfl (hbefore o' hmem o List.mem_cons_self i hi' i hi)
    · rcases List.mem_cons.mp hmem with rfl | hmem
      · exact absurd rfl heq
      · exact absurd rfl ((List.pairwise_cons.mp hafter).1 o' hmem i hi i hi')

theorem txnRowIds_eq (m : Monitor) :
    m.journal.txnRowIds = m.outputs.filterMap (fun o => o.record?.bind Record.txnId?) := by
  unfold Journal.txnRowIds Journal.records outputs
  rw [List.filterMap_filterMap]

theorem mem_txnRowIds {m : Monitor} {i : Nat} :
    i ∈ m.journal.txnRowIds ↔ ∃ row, Output.record (.txn row) ∈ m.outputs ∧ row.id = i := by
  rw [txnRowIds_eq, List.mem_filterMap]
  constructor
  · rintro ⟨o, ho, hi⟩
    cases o with
    | record r =>
      cases r with
      | txn row => exact ⟨row, ho, Option.some.inj hi⟩
      | _ => cases hi
    | report _ => cases hi
    | remark _ => cases hi
  · rintro ⟨row, hrow, rfl⟩
    exact ⟨_, hrow, rfl⟩

theorem Conserved.nodup_txnRowIds {m : Monitor} (h : m.Conserved) : m.journal.txnRowIds.Nodup := by
  have hclosed : ∀ (o : Output) (i : Nat), o.record?.bind Record.txnId? = some i →
      o.closedId? = some i := by
    intro o i hi
    cases o with
    | record r =>
      cases r with
      | txn row => exact hi
      | _ => cases hi
    | report _ => cases hi
    | remark _ => cases hi
  rw [txnRowIds_eq]
  refine List.pairwise_filterMap.mpr ?_
  refine (List.pairwise_filterMap.mp (List.nodup_append.mp h.nodup).1).imp ?_
  exact fun hne i hi i' hi' => hne i (hclosed _ i hi) i' (hclosed _ i' hi')

theorem Conserved.not_mem_txnRowIds {m : Monitor} (h : m.Conserved) {i : Nat}
    (hi : i ∈ m.purgedIds) : i ∉ m.journal.txnRowIds := by
  intro hrow
  obtain ⟨row, hrow, hid⟩ := mem_txnRowIds.mp hrow
  obtain ⟨o, ho, hpurged⟩ := List.mem_filterMap.mp hi
  have heq := h.eq_of_closedId? hrow ho (congrArg some hid) (Output.closedId?_of_purgedId? hpurged)
  rw [← heq] at hpurged
  cases hpurged

/-! ### Accounting for the transactions of accesses -/

/-- The transaction of every access is open and has an access, or has its row, or was
    purged. -/
def Accounted (m : Monitor) : Prop :=
  ∀ row, Output.record (.access row) ∈ m.outputs → ∀ i, row.txn = some i →
    (∃ t ∈ m.openTxns, t.id = i ∧ 0 < t.accesses) ∨ i ∈ m.journal.txnRowIds ∨ i ∈ m.purgedIds

theorem access_mem_withOutputs {m : Monitor} {os : List Output} (hquiet : ∀ o ∈ os, o.Quiet)
    {row : AccessRow} (h : Output.record (.access row) ∈ (m.withOutputs os).outputs) :
    Output.record (.access row) ∈ m.outputs := by
  rw [outputs_withOutputs] at h
  rcases List.mem_append.mp h with h | h
  · exact h
  · exact (hquiet _ h).elim

/-- More outputs take no row and no purging back. -/
theorem mem_rows_of_append {m m' : Monitor} {os : List Output} (h : m'.outputs = m.outputs ++ os)
    {i : Nat} (hi : i ∈ m.journal.txnRowIds ∨ i ∈ m.purgedIds) :
    i ∈ m'.journal.txnRowIds ∨ i ∈ m'.purgedIds := by
  unfold purgedIds at hi ⊢
  rw [txnRowIds_eq] at hi ⊢
  rw [h, List.filterMap_append, List.filterMap_append, List.mem_append, List.mem_append]
  exact hi.imp Or.inl Or.inl

/-- Closing transactions loses no transaction that has an access. -/
theorem Accounted.closeTxn {m : Monitor} (h : m.Accounted) (key : Nat) (side : Side) (ctx : Int64)
    (time : UInt64) (purge : Bool) : (m.closeTxn key side ctx time purge).2.Accounted := by
  intro row hrow i hi
  have houts := m.outputs_closeTxn key side ctx time purge
  rw [houts] at hrow
  have hbefore : Output.record (.access row) ∈ m.outputs := by
    apply (List.mem_append.mp hrow).resolve_right
    intro hnew
    exact LockStore.unwindOutputs_forall (P := (· ≠ .record (.access row))) _ _ _ _ _ _ _
      (fun _ => by simp) (fun _ => by simp) (fun _ _ _ _ => by simp) (fun _ _ _ _ => by simp)
      hnew rfl
  rcases h row hbefore i hi with ⟨t, ht, hid, hpos⟩ | hdone
  · obtain ⟨c, hc⟩ := mem_openTxns_iff.mp ht
    by_cases hctx : ctx = c
    · subst hctx
      rcases m.locks.unwind_fate m.skipEmpty key side ctx time purge m.txnIds.next hc with
        hstay | ⟨below, hclosed⟩ | hpurged
      · refine Or.inl ⟨t, mem_openTxns_iff.mpr ⟨ctx, ?_⟩, hid, hpos⟩
        rw [stack_closeTxn, if_pos rfl]
        exact hstay
      · -- a transaction with an access is not suppressed
        have hwritten := m.locks.txn_mem_closeOutputs time m.skipEmpty hpos below
        refine Or.inr (Or.inl (mem_txnRowIds.mpr ⟨⟨t.id, t.start, time⟩, ?_, hid⟩))
        rw [houts]
        exact List.mem_append_right _ (hclosed _ hwritten)
      · refine Or.inr (Or.inr (List.mem_filterMap.mpr
          ⟨.remark (.purged t.id ctx time), ?_, congrArg some hid⟩))
        rw [houts]
        exact List.mem_append_right _ hpurged
    · refine Or.inl ⟨t, mem_openTxns_iff.mpr ⟨c, ?_⟩, hid, hpos⟩
      rw [stack_closeTxn, if_neg hctx]
      exact hc
  · exact Or.inr (mem_rows_of_append houts hdone)

section Counting

variable {m : Monitor} (ctx : Int64)

theorem stack_countAccess_cons {top : Txn} {below : TxnStack} (hs : m.stack ctx = top :: below) :
    (m.countAccess ctx).stack ctx = { top with accesses := top.accesses + 1 } :: below := by
  rw [stack_countAccess, if_pos rfl, hs]
  rfl

/-- No transaction loses an access. -/
theorem openTxns_countAccess {t : Txn} (ht : t ∈ m.openTxns) :
    ∃ t' ∈ (m.countAccess ctx).openTxns, t'.id = t.id ∧ t.accesses ≤ t'.accesses := by
  obtain ⟨c, hc⟩ := mem_openTxns_iff.mp ht
  by_cases hctx : ctx = c
  · subst hctx
    cases hs : m.stack ctx with
    | nil =>
      rw [hs] at hc
      cases hc
    | cons top below =>
      have hnow := stack_countAccess_cons ctx hs
      rw [hs] at hc
      rcases List.mem_cons.mp hc with rfl | hbelow
      · have hmem : { t with accesses := t.accesses + 1 } ∈ (m.countAccess ctx).stack ctx := by
          rw [hnow]
          exact List.mem_cons_self
        exact ⟨_, mem_openTxns_iff.mpr ⟨ctx, hmem⟩, rfl, Nat.le_succ t.accesses⟩
      · have hmem : t ∈ (m.countAccess ctx).stack ctx := by
          rw [hnow]
          exact List.mem_cons_of_mem _ hbelow
        exact ⟨t, mem_openTxns_iff.mpr ⟨ctx, hmem⟩, rfl, Nat.le_refl _⟩
  · have hmem : t ∈ (m.countAccess ctx).stack c := by
      rw [stack_countAccess, if_neg hctx]
      exact hc
    exact ⟨t, mem_openTxns_iff.mpr ⟨c, hmem⟩, rfl, Nat.le_refl _⟩

/-- No transaction comes from counting an access. -/
theorem exists_of_mem_openTxns_countAccess {t : Txn} (ht : t ∈ (m.countAccess ctx).openTxns) :
    ∃ u ∈ m.openTxns, u.shape = t.shape := by
  obtain ⟨c, hc⟩ := mem_openTxns_iff.mp ht
  rw [stack_countAccess] at hc
  split at hc
  · have hshape : t.shape ∈ (m.stack ctx).map Txn.shape := by
      rw [← TxnStack.map_shape_addAccesses (m.stack ctx) 1]
      exact List.mem_map_of_mem hc
    obtain ⟨u, hu, heq⟩ := List.mem_map.mp hshape
    exact ⟨u, mem_openTxns_iff.mpr ⟨ctx, hu⟩, heq⟩
  · exact ⟨t, mem_openTxns_iff.mpr ⟨c, hc⟩, rfl⟩

theorem exists_innermost_countAccess {i : Nat} (hi : (m.innermost? ctx).map Txn.id = some i) :
    ∃ t ∈ (m.countAccess ctx).openTxns, t.id = i ∧ 0 < t.accesses := by
  unfold innermost? at hi
  cases hs : m.stack ctx with
  | nil =>
    rw [hs] at hi
    cases hi
  | cons top below =>
    rw [hs] at hi
    have hmem : { top with accesses := top.accesses + 1 } ∈ (m.countAccess ctx).stack ctx := by
      rw [stack_countAccess_cons ctx hs]
      exact List.mem_cons_self
    exact ⟨_, mem_openTxns_iff.mpr ⟨ctx, hmem⟩, Option.some.inj hi, Nat.succ_pos top.accesses⟩

end Counting

/-- An access that is counted gives its transaction an access. -/
theorem Accounted.access {m : Monitor} (h : m.Accounted) (ctx : Int64) {row : AccessRow}
    (hrow : row.txn = (m.innermost? ctx).map Txn.id) :
    ((m.countAccess ctx).write (.access row)).Accounted := by
  have houts : ((m.countAccess ctx).write (.access row)).outputs =
      m.outputs ++ [.record (.access row)] := outputs_write _ _
  intro row' hrow' i hi
  rw [houts] at hrow'
  rcases List.mem_append.mp hrow' with hbefore | hnew
  · rcases h row' hbefore i hi with ⟨t, ht, hid, hpos⟩ | hdone
    · obtain ⟨t', ht', hid', hle⟩ := openTxns_countAccess ctx ht
      exact Or.inl ⟨t', ht', hid'.trans hid, Nat.lt_of_lt_of_le hpos hle⟩
    · exact Or.inr (mem_rows_of_append houts hdone)
  · -- the new row names the innermost transaction
    cases List.mem_singleton.mp hnew
    rw [hrow] at hi
    exact Or.inl (exists_innermost_countAccess ctx hi)

theorem Accounted.moves {purging : Bool} {m m' : Monitor} (hm : m.Accounted)
    (h : Moves purging m m') : m'.Accounted := by
  induction h with
  | refl => exact hm
  | @outputs m' os _ hquiet ih =>
    intro row hrow i hi
    exact (ih row (access_mem_withOutputs hquiet hrow) i hi).imp id
      (mem_rows_of_append (m'.outputs_withOutputs os))
  | locks locks _ ih => exact ih
  | @openTxn m' key side ctx time _ ih =>
    intro row hrow i hi
    refine (ih row hrow i hi).imp ?_ id
    rintro ⟨t, ht, hid, hpos⟩
    have hmem := (m'.openTxns_openTxn_perm key side ctx time).symm.subset
      (List.mem_cons_of_mem _ ht)
    exact ⟨t, hmem, hid, hpos⟩
  | closeTxn key side ctx time purge _ _ ih => exact ih.closeTxn key side ctx time purge
  | access ctx row _ hrow ih => exact ih.access ctx hrow

theorem Accounted.initial (skipEmpty : Bool) : (Monitor.initial skipEmpty).Accounted := by
  intro row hrow
  cases hrow

end Monitor

/-! ### Whole traces -/

/-- An access that belongs to a transaction finds exactly one row of it, unless an event on
    the way dropped the transaction: then it finds none. -/
theorem Session.count_txnRowIds_of_access {config : Config} {symbols : SymbolTable}
    {es : List Event} {s : Session} (hrun : (Session.initial config symbols).run es = (s, none))
    {row : AccessRow} (hrow : Record.access row ∈ s.finish.journal.records) {i : Nat}
    (htxn : row.txn = some i) :
    ((Session.initial config symbols).DropsIn es i → s.finish.journal.txnRowIds.count i = 0) ∧
    (¬ (Session.initial config symbols).DropsIn es i →
      s.finish.journal.txnRowIds.count i = 1) := by
  have hmoves := (Session.initial config symbols).moves_run es
  rw [hrun] at hmoves
  have hfinish := hmoves.trans s.moves_finish.weaken
  have hconserved := (Monitor.Conserved.initial config.skipEmpty).moves hfinish
  have haccounted := (Monitor.Accounted.initial config.skipEmpty).moves hfinish
  have hpurged : i ∈ s.finish.monitor.purgedIds ↔
      (Session.initial config symbols).DropsIn es i := by
    rw [s.moves_finish.mem_purgedIds,
      Session.mem_purgedIds_run (Session.inStep_initial config symbols) hrun]
    exact ⟨fun h => h.resolve_left (fun hnil => by cases hnil), Or.inr⟩
  constructor
  · intro hdrops
    exact List.count_eq_zero.mpr (hconserved.not_mem_txnRowIds (hpurged.mpr hdrops))
  · intro hkept
    have hout : Output.record (.access row) ∈ s.finish.monitor.outputs :=
      Output.mem_records_iff.mp hrow
    rcases haccounted row hout i htxn with ⟨t, ht, _⟩ | hwritten | hdropped
    · rw [s.openTxns_finish] at ht
      cases ht
    · exact hconserved.nodup_txnRowIds.count.trans (if_pos hwritten)
    · exact absurd (hpurged.mp hdropped) hkept

/-! ### A transaction that is dropped -/

namespace Session

/-- A context takes the reader's side of a lock, reads, takes the reader's side once more and
    then the writer's side. -/
def overtakenReads : List Event :=
  [⟨1, 1, .acquire .reader .none 0, 0x100, "rwlock_t", Site.unknown, 0⟩,
    ⟨2, 1, .access .read 4, 0x200, "", Site.unknown, 0⟩,
    ⟨3, 1, .acquire .reader .none 0, 0x100, "rwlock_t", Site.unknown, 0⟩,
    ⟨4, 1, .acquire .writer .none 0, 0x100, "rwlock_t", Site.unknown, 0⟩,
    ⟨5, 1, .release .writer 0, 0x100, "rwlock_t", Site.unknown, 0⟩]

/-- The row of the access, which names the transaction of the first acquisition. -/
def overtakenRow : AccessRow := ⟨1, none, some 1, 2, .read, 4, 0x200, Site.unknown⟩

def overtakenSession : Session := ((Session.initial .default ∅).run overtakenReads).1

theorem run_overtakenReads :
    (Session.initial .default ∅).run overtakenReads = (overtakenSession, none) := by
  have hstop : ((Session.initial .default ∅).run overtakenReads).2 = none := by decide +kernel
  exact Prod.ext rfl hstop

theorem overtakenRow_mem :
    Record.access overtakenRow ∈ overtakenSession.finish.journal.records := by
  decide +kernel

/-- The first acquisition's transaction is dropped: it lies below that of the second. -/
theorem dropsIn_overtakenReads :
    (Session.initial .default ∅).DropsIn overtakenReads 1 := by
  refine ⟨overtakenReads.take 3,
    ⟨4, 1, .acquire .writer .none 0, 0x100, "rwlock_t", Site.unknown, 0⟩,
    overtakenReads.drop 4, rfl, 1, .none, 0, rfl, by decide +kernel, by decide +kernel, ?_, 1, ?_⟩
  · exact ⟨⟨0x100, .both 1 2, "rwlock_t", none, none, 0, 2, 0,
      [⟨⟨3, Site.unknown, 0, .none⟩, .reader⟩, ⟨⟨1, Site.unknown, 0, .none⟩, .reader⟩]⟩,
      by decide +kernel, by decide, by decide⟩
  · exact ⟨[⟨2, 3, 1, .reader, 0⟩], ⟨1, 1, 1, .reader, 1⟩, [], by decide +kernel, rfl,
      by decide, by decide⟩

theorem count_txnRowIds_overtakenReads : overtakenSession.finish.journal.txnRowIds.count 1 = 0 :=
  (count_txnRowIds_of_access run_overtakenReads overtakenRow_mem rfl).1 dropsIn_overtakenReads

/-- So it is not true that every access finds the row of its transaction. -/
theorem not_forall_access_txnRow :
    ¬ ∀ (config : Config) (symbols : SymbolTable) (es : List Event) (s : Session),
      (Session.initial config symbols).run es = (s, none) →
      ∀ row, Record.access row ∈ s.finish.journal.records → ∀ i, row.txn = some i →
        s.finish.journal.txnRowIds.count i = 1 := by
  intro hall
  have hone := hall .default ∅ overtakenReads overtakenSession run_overtakenReads overtakenRow
    overtakenRow_mem 1 rfl
  have hzero : overtakenSession.finish.journal.txnRowIds.count 1 = 0 := by decide +kernel
  rw [hzero] at hone
  cases hone

end Session

end LockTrace
