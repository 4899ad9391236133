import LockTrace.Proofs.Attribution
import LockTrace.Proofs.Changes

/-!
# What the numbers of a monitor count

Every number of a transaction was handed out for one that was opened or for one that was opened
again (`Tallied.issued`). Of the three ways in which a transaction ends, two are counted as they
happen: its row is written, or it is suppressed. The third, being purged, is not counted, so that
the purged are what is missing in the sum. What closing a transaction counts is told by its outputs
(`stats_closeTxn`), and the journal counts the reports of every name (`Journal.Counts`).

A transaction that is written names each sub-lock once, as it keeps those that it has named. It is
closed once, hence no sub-lock stands twice beside one transaction in the table of held sub-locks
(`HeldOnce.nodup`).
-/

namespace LockTrace

theorem filterMap_perm_append {α β : Type} {f g h : α → Option β}
    (hsplit : ∀ a, (g a = none ∧ f a = h a) ∨ (h a = none ∧ f a = g a)) (l : List α) :
    (l.filterMap f).Perm (l.filterMap g ++ l.filterMap h) := by
  induction l with
  | nil => exact .refl _
  | cons a l ih =>
    rcases hsplit a with ⟨hg, hf⟩ | ⟨hh, hf⟩
    · rw [List.filterMap_cons_none hg]
      cases hb : h a with
      | none => rwa [List.filterMap_cons_none (hf.trans hb), List.filterMap_cons_none hb]
      | some b =>
        rw [List.filterMap_cons_some (hf.trans hb), List.filterMap_cons_some hb]
        exact (ih.cons b).trans List.perm_middle.symm
    · rw [List.filterMap_cons_none hh]
      cases hb : g a with
      | none => rwa [List.filterMap_cons_none (hf.trans hb), List.filterMap_cons_none hb]
      | some b =>
        rw [List.filterMap_cons_some (hf.trans hb), List.filterMap_cons_some hb]
        exact ih.cons b

namespace Output

def txnRowId? (o : Output) : Option Nat := o.record?.bind Record.txnId?

/-- The number of the transaction that an output says was suppressed. -/
def suppressedId? : Output → Option Nat
  | .remark (.suppressed id) => some id
  | _ => none

theorem closedId?_cases (o : Output) :
    (o.txnRowId? = none ∧ o.closedId? = (o.suppressedId?).or o.purgedId?) ∨
      ((o.suppressedId?).or o.purgedId? = none ∧ o.closedId? = o.txnRowId?) := by
  cases o with
  | record r =>
    cases r <;> simp [txnRowId?, closedId?, suppressedId?, purgedId?, record?, Record.txnId?]
  | report i => simp [txnRowId?, closedId?, suppressedId?, purgedId?, record?]
  | remark r => cases r <;> simp [txnRowId?, closedId?, suppressedId?, purgedId?, record?]

theorem suppressedId?_or_purgedId?_cases (o : Output) :
    (o.suppressedId? = none ∧ (o.suppressedId?).or o.purgedId? = o.purgedId?) ∨
      (o.purgedId? = none ∧ (o.suppressedId?).or o.purgedId? = o.suppressedId?) := by
  cases hs : o.suppressedId? with
  | none => simp
  | some i =>
    unfold suppressedId? at hs
    split at hs
    · simp_all [purgedId?]
    · cases hs

end Output

namespace Monitor

/-- The numbers of the transactions that were suppressed. -/
def suppressedIds (m : Monitor) : List Nat := m.outputs.filterMap Output.suppressedId?

theorem closedIds_perm (m : Monitor) :
    m.closedIds.Perm (m.journal.txnRowIds ++ (m.suppressedIds ++ m.purgedIds)) := by
  rw [txnRowIds_eq]
  refine (filterMap_perm_append Output.closedId?_cases m.outputs).trans ?_
  exact (filterMap_perm_append Output.suppressedId?_or_purgedId?_cases m.outputs).append_left _

end Monitor

/-! ### What closing a transaction counts -/

namespace Stats

instance : Add Stats where
  add s d := ⟨s.opened + d.opened, s.emitted + d.emitted, s.suppressed + d.suppressed,
    s.reopened + d.reopened, s.heldRecords + d.heldRecords⟩

theorem zero_add (s : Stats) : zero + s = s :=
  (Stats.mk.injEq ..).mpr ⟨Nat.zero_add _, Nat.zero_add _, Nat.zero_add _, Nat.zero_add _,
    Nat.zero_add _⟩

theorem add_assoc (s d e : Stats) : s + d + e = s + (d + e) :=
  (Stats.mk.injEq ..).mpr ⟨Nat.add_assoc .., Nat.add_assoc .., Nat.add_assoc .., Nat.add_assoc ..,
    Nat.add_assoc ..⟩

theorem add_right_comm (s d e : Stats) : s + d + e = s + e + d :=
  (Stats.mk.injEq ..).mpr ⟨Nat.add_right_comm .., Nat.add_right_comm .., Nat.add_right_comm ..,
    Nat.add_right_comm .., Nat.add_right_comm ..⟩

/-- What the outputs of closing transactions count for, with the number of transactions that were
    opened again. -/
def closing (os : List Output) (reopened : Nat) : Stats where
  opened := 0
  emitted := (os.filterMap Output.txnRowId?).length
  suppressed := (os.filterMap Output.suppressedId?).length
  reopened := reopened
  heldRecords := (os.filterMap Output.heldRow?).length

theorem closing_append (os ps : List Output) (i j : Nat) :
    closing (os ++ ps) (i + j) = closing os i + closing ps j := by
  unfold closing
  rw [List.filterMap_append, List.filterMap_append, List.filterMap_append, List.length_append,
    List.length_append, List.length_append]
  rfl

/-- Outputs that neither write nor suppress a transaction, and write nothing that it held, count
    for nothing. -/
theorem closing_of_silent {os : List Output}
    (hos : ∀ o ∈ os, o.txnRowId? = none ∧ o.suppressedId? = none ∧ o.heldRow? = none) :
    closing os 0 = zero := by
  unfold closing
  rw [List.filterMap_eq_nil_iff.mpr fun o ho => (hos o ho).1,
    List.filterMap_eq_nil_iff.mpr fun o ho => (hos o ho).2.1,
    List.filterMap_eq_nil_iff.mpr fun o ho => (hos o ho).2.2]
  rfl

end Stats

namespace LockStore

variable (locks : LockStore) (key : Nat) (time : UInt64)

theorem closing_mismatchOutputs (top : Txn) :
    Stats.closing (locks.mismatchOutputs key time top) 0 = .zero := by
  apply Stats.closing_of_silent
  intro o ho
  exact mismatchOutputs_forall locks key time (P := fun o =>
    o.txnRowId? = none ∧ o.suppressedId? = none ∧ o.heldRow? = none) (fun _ => ⟨rfl, rfl, rfl⟩) ho

theorem closing_purgeOutputs (ctx : Int64) (s : TxnStack) :
    Stats.closing (locks.purgeOutputs key ctx time s) 0 = .zero := by
  apply Stats.closing_of_silent
  intro o ho
  rcases List.mem_append.mp ho with ho | ho
  · obtain ⟨t, _, rfl⟩ := List.mem_map.mp ho
    exact ⟨rfl, rfl, rfl⟩
  · obtain ⟨t, _, rfl⟩ := List.mem_map.mp ho
    exact ⟨rfl, rfl, rfl⟩

/-- The rows of what a transaction held are the only records among these outputs. -/
theorem recordCount_heldOutputs (txn : Nat) (seen : List Nat) (s : List Txn) :
    Output.recordCount (locks.heldOutputs txn time seen s) =
      ((locks.heldOutputs txn time seen s).filterMap Output.heldRow?).length := by
  unfold Output.recordCount
  rw [List.length_filterMap_eq_countP]
  apply List.countP_congr
  intro o ho
  have hsame := heldOutputs_forall (P := fun o => o.record?.isSome = o.heldRow?.isSome) locks time
    (fun _ => rfl) (fun _ _ => rfl) ho
  rw [hsame]

end LockStore

namespace Monitor

theorem stats_closeTop (m : Monitor) (time : UInt64) (top : Txn) (below : TxnStack) :
    (m.closeTop time top below).stats =
      m.stats + .closing (m.locks.closeOutputs m.skipEmpty time top below) 0 := by
  unfold closeTop LockStore.closeOutputs
  split
  · rfl
  · have hheld : ∀ o ∈ m.locks.heldOutputs top.id time [] (top :: below).reverse,
        o.txnRowId? = none ∧ o.suppressedId? = none := by
      intro o ho
      exact LockStore.heldOutputs_forall (P := fun o => o.txnRowId? = none ∧ o.suppressedId? = none)
        m.locks time (fun _ => ⟨rfl, rfl⟩) (fun _ _ => ⟨rfl, rfl⟩) ho
    have hrow : Output.txnRowId? (.record (.txn ⟨top.id, top.start, time⟩)) = some top.id := rfl
    unfold Monitor.emit Stats.closing
    rw [List.filterMap_cons_some hrow, List.filterMap_cons_none rfl, List.filterMap_cons_none rfl,
      List.filterMap_eq_nil_iff.mpr fun o ho => (hheld o ho).1,
      List.filterMap_eq_nil_iff.mpr fun o ho => (hheld o ho).2,
      ← LockStore.recordCount_heldOutputs]
    rfl

theorem stats_unwind (key : Nat) (side : Side) (ctx : Int64) (time : UInt64) (purge : Bool)
    (m : Monitor) (s : TxnStack) :
    (unwind key side ctx time purge m s).monitor.stats =
      m.stats + .closing (m.locks.unwindOutputs m.skipEmpty key side ctx time purge s)
        (s.displaced key side) := by
  induction s generalizing m with
  | nil => rfl
  | cons top below ih =>
    have hstats := m.stats_closeTop time top below
    obtain ⟨stats, hclose⟩ := m.closeTop_eq time top below
    rw [hclose] at hstats
    simp only [unwind, hclose, LockStore.unwindOutputs, TxnStack.displaced]
    by_cases hanchor : top.AnchoredAt key side
    · simp only [hanchor, if_true]
      rw [Stats.closing_append _ _ 0 0]
      cases purge with
      | true =>
        simp only [if_true, purgeReaders_eq, LockStore.closing_purgeOutputs]
        exact hstats
      | false => exact hstats
    · simp only [hanchor, if_false, mismatch_eq]
      have hrest : Stats.closing (m.locks.mismatchOutputs key time top ++
          m.locks.unwindOutputs m.skipEmpty key side ctx time purge below)
          (TxnStack.displaced key side below) =
          .closing (m.locks.unwindOutputs m.skipEmpty key side ctx time purge below)
            (TxnStack.displaced key side below) := by
        have hboth := Stats.closing_append (m.locks.mismatchOutputs key time top)
          (m.locks.unwindOutputs m.skipEmpty key side ctx time purge below) 0
          (TxnStack.displaced key side below)
        rwa [LockStore.closing_mismatchOutputs, Nat.zero_add, Stats.zero_add] at hboth
      have hreopened : { stats with reopened := stats.reopened + 1 } =
          m.stats + .closing (m.locks.closeOutputs m.skipEmpty time top below) 1 := by
        have hstats' : stats =
            m.stats + .closing (m.locks.closeOutputs m.skipEmpty time top below) 0 := hstats
        rw [hstats']
        rfl
      rw [Nat.add_comm (TxnStack.displaced key side below) 1, Stats.closing_append, hrest,
        ← Stats.add_assoc, ← hreopened]
      exact ih _

theorem stats_closeTxn (m : Monitor) (key : Nat) (side : Side) (ctx : Int64) (time : UInt64)
    (purge : Bool) :
    (m.closeTxn key side ctx time purge).2.stats =
      m.stats + .closing
        (m.locks.unwindOutputs m.skipEmpty key side ctx time purge (m.stack ctx))
        ((m.stack ctx).displaced key side) :=
  m.stats_unwind key side ctx time purge (m.stack ctx)

/-! ### Counting -/

structure Tallied (m : Monitor) : Prop where
  issued : m.txnIds.next = m.stats.opened + m.stats.reopened + 1
  emitted : m.journal.txnRowIds.length = m.stats.emitted
  suppressed : m.suppressedIds.length = m.stats.suppressed

namespace Tallied

variable {m m' : Monitor}

theorem initial (skipEmpty : Bool) : (Monitor.initial skipEmpty).Tallied := ⟨rfl, rfl, rfl⟩

theorem of_append (h : m.Tallied) {os : List Output} (houtputs : m'.outputs = m.outputs ++ os)
    (hissued : m'.txnIds.next = m'.stats.opened + m'.stats.reopened + 1)
    (hemitted : m'.stats.emitted = m.stats.emitted + (os.filterMap Output.txnRowId?).length)
    (hsuppressed : m'.stats.suppressed =
      m.stats.suppressed + (os.filterMap Output.suppressedId?).length) : m'.Tallied where
  issued := hissued
  emitted := by
    have hbefore := h.emitted
    rw [txnRowIds_eq] at hbefore ⊢
    rw [houtputs, List.filterMap_append, List.length_append, hbefore, hemitted]
    rfl
  suppressed := by
    have hbefore := h.suppressed
    unfold suppressedIds at hbefore ⊢
    rw [houtputs, List.filterMap_append, List.length_append, hbefore, hsuppressed]

/-- Outputs that write no transaction and suppress none. -/
theorem of_silent (h : m.Tallied) {os : List Output} (houtputs : m'.outputs = m.outputs ++ os)
    (hids : m'.txnIds = m.txnIds) (hstats : m'.stats = m.stats)
    (hos : ∀ o ∈ os, o.txnRowId? = none ∧ o.suppressedId? = none) : m'.Tallied := by
  have hrows : os.filterMap Output.txnRowId? = [] :=
    List.filterMap_eq_nil_iff.mpr fun o ho => (hos o ho).1
  have hsuppressed : os.filterMap Output.suppressedId? = [] :=
    List.filterMap_eq_nil_iff.mpr fun o ho => (hos o ho).2
  apply h.of_append houtputs
  · rw [hids, hstats]
    exact h.issued
  · rw [hstats, hrows, List.length_nil, Nat.add_zero]
  · rw [hstats, hsuppressed, List.length_nil, Nat.add_zero]

theorem stable : Stable Tallied where
  outputs h hquiet := by
    refine h.of_silent (outputs_withOutputs _ _) rfl rfl ?_
    intro o ho
    have hquiet' := hquiet o ho
    cases o with
    | record r => cases r <;> first | exact hquiet'.elim | exact ⟨rfl, rfl⟩
    | report i => exact ⟨rfl, rfl⟩
    | remark r => cases r <;> first | exact hquiet'.elim | exact ⟨rfl, rfl⟩
  locks _ h := ⟨h.issued, h.emitted, h.suppressed⟩
  openTxn {m} key side ctx time h := by
    refine ⟨?_, h.emitted, h.suppressed⟩
    have hissued : m.txnIds.next + 1 = m.stats.opened + 1 + m.stats.reopened + 1 := by
      rw [h.issued]
      omega
    exact hissued
  closeTxn {m} key side ctx time purge h := by
    have hissued := h.issued
    apply h.of_append (m.outputs_closeTxn key side ctx time purge)
    · have hreopened : m.stats.opened + m.stats.reopened + 1 + (m.stack ctx).displaced key side =
          m.stats.opened + 0 + (m.stats.reopened + (m.stack ctx).displaced key side) + 1 := by
        omega
      rw [next_closeTxn, stats_closeTxn, hissued]
      exact hreopened
    · rw [stats_closeTxn]
      rfl
    · rw [stats_closeTxn]
      rfl

end Tallied

end Monitor

/-! ### Counting reports -/

/-- The output is a report with a given name. -/
def Output.hasName (name : String) : Output → Bool
  | .report i => decide (i.name = name)
  | _ => false

theorem Output.exists_of_hasName {name : String} {o : Output} (h : o.hasName name = true) :
    ∃ i, o = .report i ∧ i.name = name := by
  cases o with
  | record r => cases h
  | report i => exact ⟨i, rfl, of_decide_eq_true h⟩
  | remark r => cases h

/-- The count of every name is the number of the reports with this name. -/
def Journal.Counts (j : Journal) : Prop :=
  ∀ name, j.tally.count name = j.outputs.toList.countP (Output.hasName name)

theorem Journal.Counts.add {j : Journal} (h : j.Counts) (o : Output) : (j.add o).Counts := by
  intro name
  rw [Journal.toList_outputs_add, List.countP_append, List.countP_singleton, ← h name]
  cases o with
  | record r => rfl
  | remark r => rfl
  | report i =>
    have hcount : (j.add (.report i)).tally.count name = (j.tally.record i).count name := rfl
    rw [hcount, Tally.count_record]
    by_cases hi : i.name = name
    · simp [hi, Output.hasName]
    · simp [hi, Output.hasName]

theorem Journal.Counts.addAll {j : Journal} (h : j.Counts) (os : List Output) :
    (j.addAll os).Counts := by
  induction os generalizing j with
  | nil => exact h
  | cons o os ih => exact ih (h.add o)

theorem Monitor.counts_stable : Stable fun m => m.journal.Counts where
  outputs h _ := h.addAll _
  locks _ h := h
  openTxn _ _ _ _ h := h
  closeTxn {m} key side ctx time purge h := by
    rw [journal_closeTxn]
    exact h.addAll _

theorem Tally.total_record (t : Tally) (i : Inconsistency) :
    (t.record i).total = t.total + 1 := by
  have hinsert := t.counts.total_insert i.name ((t.counts.get? i.name).getD 0 + 1)
  have hrecord : (t.record i).total =
      (t.counts.insert i.name ((t.counts.get? i.name).getD 0 + 1)).total := rfl
  have htotal : t.total = t.counts.total := rfl
  omega

/-- All counts together are the number of the reports. -/
def Journal.CountsReports (j : Journal) : Prop := j.tally.total = j.reports.length

theorem Journal.CountsReports.addAll {j : Journal} (h : j.CountsReports) (os : List Output) :
    (j.addAll os).CountsReports := by
  induction os generalizing j with
  | nil => exact h
  | cons o os ih =>
    apply ih
    unfold CountsReports reports at h ⊢
    rw [toList_outputs_add, List.filterMap_append, List.length_append, ← h]
    cases o with
    | report i => exact j.tally.total_record i
    | _ => rfl

/-! ### Rows on held sub-locks -/

namespace LockStore

variable (locks : LockStore)

/-- A sub-lock that has its row gets no other one. -/
theorem nodup_heldRows (txn : Nat) (time : UInt64) (seen : List Nat) (s : List Txn) :
    (((locks.heldOutputs txn time seen s).filterMap Output.heldRow?).map HeldRow.lock).Nodup ∧
      ∀ id ∈ ((locks.heldOutputs txn time seen s).filterMap Output.heldRow?).map HeldRow.lock,
        id ∉ seen := by
  induction s generalizing seen with
  | nil => exact ⟨List.nodup_nil, by simp [heldOutputs]⟩
  | cons t ts ih =>
    unfold heldOutputs
    split
    · exact ih seen
    · split
      · split
        · exact ih seen
        · exact ih seen
        · next latest _ id _ _ =>
          split
          · exact ih seen
          · next hnew =>
            obtain ⟨hnodup, hseen⟩ := ih (id :: seen)
            have hrow : Output.heldRow? (.record (.held ⟨txn, id, latest.toAcquisition⟩)) =
                some ⟨txn, id, latest.toAcquisition⟩ := rfl
            rw [List.filterMap_cons_some hrow, List.map_cons]
            constructor
            · refine List.nodup_cons.mpr ⟨?_, hnodup⟩
              intro hagain
              exact hseen id hagain List.mem_cons_self
            · intro id' hid'
              rcases List.mem_cons.mp hid' with rfl | hid'
              · exact hnew
              · exact fun hmem => hseen id' hid' (List.mem_cons_of_mem _ hmem)
      · exact ih seen

section Unwind

variable (skipEmpty : Bool) (key : Nat) (side : Side) (ctx : Int64) (time : UInt64) (purge : Bool)

theorem nodup_heldRowsOf_closeOutputs (txn : Nat) (top : Txn) (below : TxnStack) :
    ((Output.heldRowsOf txn (locks.closeOutputs skipEmpty time top below)).map
      HeldRow.lock).Nodup := by
  have hsub : ((Output.heldRowsOf txn (locks.closeOutputs skipEmpty time top below)).map
      HeldRow.lock).Sublist
      (((locks.closeOutputs skipEmpty time top below).filterMap Output.heldRow?).map
        HeldRow.lock) := List.filter_sublist.map _
  refine List.Nodup.sublist hsub ?_
  unfold closeOutputs
  split
  · exact List.nodup_nil
  · exact (locks.nodup_heldRows top.id time [] (top :: below).reverse).1

theorem nodup_heldRowsOf_unwindOutputs {txn : Nat} {s : TxnStack}
    (hnodup : ((locks.unwindOutputs skipEmpty key side ctx time purge s).filterMap
      Output.closedId?).Nodup) :
    ((Output.heldRowsOf txn (locks.unwindOutputs skipEmpty key side ctx time purge s)).map
      HeldRow.lock).Nodup := by
  by_cases hmem : txn ∈ (locks.unwindOutputs skipEmpty key side ctx time purge s).filterMap
      Output.closedId?
  · induction s with
    | nil => exact List.nodup_nil
    | cons top below ih =>
      have hclose := locks.nodup_heldRowsOf_closeOutputs skipEmpty time txn top below
      rw [unwindOutputs, Output.heldRowsOf_append]
      rw [unwindOutputs, List.filterMap_append, closedIds_closeOutputs] at hnodup hmem
      split
      · split
        · rwa [heldRowsOf_purgeOutputs, List.append_nil]
        · exact (List.append_nil _).symm ▸ hclose
      · next hanchor =>
        rw [if_neg hanchor, List.filterMap_append, closedIds_mismatchOutputs, List.nil_append,
          List.cons_append, List.nil_append] at hnodup hmem
        obtain ⟨htop, hbelow⟩ := List.nodup_cons.mp hnodup
        rw [Output.heldRowsOf_append, heldRowsOf_mismatchOutputs, List.nil_append]
        rcases List.mem_cons.mp hmem with rfl | hmem
        · -- the transaction is the top one, and it is closed here only
          rwa [heldRowsOf_unwindOutputs_of_not_mem locks skipEmpty key side ctx time purge htop,
            List.append_nil]
        · have hne : top.id ≠ txn := fun heq => htop (heq ▸ hmem)
          rw [heldRowsOf_closeOutputs_of_ne locks skipEmpty time hne, List.nil_append]
          exact ih hbelow hmem
  · rw [heldRowsOf_unwindOutputs_of_not_mem locks skipEmpty key side ctx time purge hmem]
    exact List.nodup_nil

end Unwind

end LockStore

namespace Monitor

def heldTable (m : Monitor) : List HeldRow := m.outputs.filterMap Output.heldRow?

/-- Every number ends once, and no transaction names a sub-lock twice. -/
structure HeldOnce (m : Monitor) : Prop where
  conserved : m.Conserved
  ended : m.HeldRowsEnded
  once : ∀ i, ((Output.heldRowsOf i m.outputs).map HeldRow.lock).Nodup

namespace HeldOnce

variable {m : Monitor}

theorem initial (skipEmpty : Bool) : (Monitor.initial skipEmpty).HeldOnce where
  conserved := .initial skipEmpty
  ended := .initial skipEmpty
  once _ := List.nodup_nil

theorem of_quiet {m' : Monitor} (h : m.HeldOnce) (hmoves : Moves true m m')
    {os : List Output} (houtputs : m'.outputs = m.outputs ++ os) (hquiet : ∀ o ∈ os, o.Quiet) :
    m'.HeldOnce where
  conserved := h.conserved.moves hmoves
  ended := h.ended.moves hmoves
  once i := by
    have hnone : Output.heldRowsOf i os = [] := by
      apply Output.heldRowsOf_eq_nil
      intro o ho row heq
      have hquiet' := hquiet o ho
      rw [heq] at hquiet'
      exact hquiet'.elim
    rw [houtputs, Output.heldRowsOf_append, hnone, List.append_nil]
    exact h.once i

theorem stable : Stable HeldOnce where
  outputs h hquiet :=
    h.of_quiet (Moves.refl.outputs _ hquiet) (outputs_withOutputs _ _) hquiet
  locks store h := h.of_quiet (Moves.refl.locks store) (List.append_nil _).symm (by simp)
  openTxn key side ctx time h :=
    h.of_quiet (Moves.refl.openTxn key side ctx time) (List.append_nil _).symm (by simp)
  closeTxn {m} key side ctx time purge h := by
    have hmoves : Moves true m (m.closeTxn key side ctx time purge).2 :=
      Moves.refl.closeTxn key side ctx time purge fun _ => rfl
    refine ⟨h.conserved.moves hmoves, h.ended.moves hmoves, ?_⟩
    intro i
    have hafter := (List.nodup_append.mp (h.conserved.moves hmoves).nodup).1
    unfold closedIds at hafter
    rw [outputs_closeTxn, List.filterMap_append] at hafter
    obtain ⟨_, hnew, hdisjoint⟩ := List.nodup_append.mp hafter
    rw [outputs_closeTxn, Output.heldRowsOf_append]
    by_cases hclosed : i ∈ m.closedIds
    · have hnot : i ∉ (m.locks.unwindOutputs m.skipEmpty key side ctx time purge
          (m.stack ctx)).filterMap Output.closedId? := fun hmem => hdisjoint i hclosed i hmem rfl
      rw [LockStore.heldRowsOf_unwindOutputs_of_not_mem _ _ _ _ _ _ _ hnot, List.append_nil]
      exact h.once i
    · rw [h.ended i hclosed, List.nil_append]
      exact LockStore.nodup_heldRowsOf_unwindOutputs _ _ _ _ _ _ _ hnew

theorem countAccess (h : m.HeldOnce) (ctx : Int64) : (m.countAccess ctx).HeldOnce where
  conserved := by
    refine ⟨h.conserved.pos, ?_⟩
    exact (List.Perm.append_left _ (m.openIds_countAccess_perm ctx)).trans h.conserved.perm
  ended := h.ended
  once := h.once

theorem nodup (h : m.HeldOnce) : (m.heldTable.map fun row => (row.txn, row.lock)).Nodup := by
  rw [List.nodup_iff_count_le_one]
  rintro ⟨i, id⟩
  have hcount : (m.heldTable.map fun row => (row.txn, row.lock)).count (i, id) =
      ((Output.heldRowsOf i m.outputs).map HeldRow.lock).count id := by
    unfold Output.heldRowsOf heldTable
    rw [List.count_eq_countP, List.count_eq_countP, List.countP_map, List.countP_map,
      List.countP_filter]
    apply List.countP_congr
    intro row _
    simp [Prod.ext_iff, and_comm]
  rw [hcount]
  exact List.nodup_iff_count_le_one.mp (h.once i) id

end HeldOnce

end Monitor

end LockTrace
