import LockTrace.Proofs.Accounts
import LockTrace.Proofs.Faithful
import LockTrace.Proofs.InternalReports
import LockTrace.Proofs.Pairs

/-!
# Leaving out transactions without accesses

Whether transactions without accesses leave a row is a matter of what is written, and of nothing
else. Two sessions that differ in this choice go through the same states, and what the one writes
is what the other writes without the rows of the transactions that no access names
(`Session.Thins`).

The two monitors are compared output by output (`Monitor.Thinned`): where the one says that a
transaction was suppressed, the other has its row, the rows of what it held, and perhaps reports
that such a row is missing. How many accesses a transaction had is read off the accesses that were
written (`Monitor.accessCount`).
-/

namespace LockTrace

theorem filterMap_filter_of_iff {α β : Type} {f : α → Option β} {p : α → Bool} {q : β → Bool}
    (h : ∀ a b, f a = some b → p a = q b) (l : List α) :
    (l.filter p).filterMap f = (l.filterMap f).filter q := by
  induction l with
  | nil => rfl
  | cons a l ih =>
    cases hf : f a with
    | none =>
      rw [List.filterMap_cons_none hf, List.filter_cons]
      split
      · rw [List.filterMap_cons_none hf, ih]
      · exact ih
    | some b =>
      rw [List.filterMap_cons_some hf, List.filter_cons, List.filter_cons, h a b hf]
      split
      · rw [List.filterMap_cons_some hf, ih]
      · exact ih

namespace Monitor

/-! ### Counting accesses -/

/-- How many accesses were written for a transaction. -/
def accessCount (m : Monitor) (i : Nat) : Nat :=
  m.accessTable.countP (fun row => decide (row.txn = some i))

/-- The accesses of every transaction are those that were written for it. -/
def Booked (m : Monitor) : Prop := m.Counted m.accessCount

theorem Booked.of_table {m m' : Monitor} (h : m'.Counted m.accessCount)
    (htable : m'.accessTable = m.accessTable) : m'.Booked := by
  unfold Booked accessCount
  rw [htable]
  exact h

theorem booked_stable : Stable Booked where
  outputs {m os} h hquiet := Booked.of_table ((Counted.stable _).outputs h hquiet)
    (accessTable_of_quiet (m.outputs_withOutputs os) hquiet)
  locks locks h := Booked.of_table ((Counted.stable _).locks locks h) rfl
  openTxn key side ctx time h :=
    Booked.of_table ((Counted.stable _).openTxn key side ctx time h) rfl
  closeTxn {m} key side ctx time purge h :=
    Booked.of_table ((Counted.stable _).closeTxn key side ctx time purge h)
      (m.accessTable_closeTxn key side ctx time purge)

theorem Counted.write {n : Nat → Nat} {m : Monitor} (h : m.Counted n) (row : AccessRow) :
    (m.write (.access row)).Counted n := by
  have houtputs := m.outputs_write (.access row)
  refine ⟨⟨h.conserved.pos, ?_⟩, h.accesses, h.fresh, ?_, ?_⟩
  · have hclosed : (m.write (.access row)).closedIds = m.closedIds := by
      unfold closedIds
      rw [houtputs, List.filterMap_append]
      exact List.append_nil _
    rw [hclosed]
    exact h.conserved.perm
  · intro i hi
    apply h.suppressed i
    rw [mem_suppressedIds, houtputs] at hi
    rw [mem_suppressedIds]
    exact (List.mem_append.mp hi).resolve_right (by simp)
  · intro i hi
    apply h.written i
    obtain ⟨r, hr, hid⟩ := mem_txnRowIds.mp hi
    rw [houtputs] at hr
    exact mem_txnRowIds.mpr ⟨r, (List.mem_append.mp hr).resolve_right (by simp), hid⟩

theorem accessCount_access (m : Monitor) (ctx : Int64) {row : AccessRow}
    (hrow : row.txn = (m.innermost? ctx).map Txn.id) (i : Nat) :
    ((m.countAccess ctx).write (.access row)).accessCount i =
      m.accessCount i + m.accessesOf i (.countAccess ctx) := by
  have htable : ((m.countAccess ctx).write (.access row)).accessTable = m.accessTable ++ [row] :=
    accessTable_of_append (outputs_write _ _)
  have haccesses : m.accessesOf i (.countAccess ctx) = if row.txn = some i then 1 else 0 := by
    rw [hrow]
    rfl
  unfold accessCount
  rw [htable, List.countP_append, List.countP_singleton, haccesses]
  simp

theorem Booked.access {m : Monitor} (h : m.Booked) (ctx : Int64) {row : AccessRow}
    (hrow : row.txn = (m.innermost? ctx).map Txn.id) :
    ((m.countAccess ctx).write (.access row)).Booked := by
  have hcount : ((m.countAccess ctx).write (.access row)).accessCount =
      fun i => m.accessCount i + m.accessesOf i (.countAccess ctx) :=
    funext (m.accessCount_access ctx hrow)
  unfold Booked
  rw [hcount]
  exact (Counted.countAccess h ctx).write row

end Monitor

/-! ### What is shown of unwinding a stack -/

namespace Output

/-- Only with an access a transaction shows its end. -/
def shown (n : Nat → Nat) (o : Output) : Bool := o.endOf?.all fun i => decide (0 < n i)

def isSuppressed (o : Output) : Bool := o.suppressedId?.isSome

theorem shown_of_endOf? {n : Nat → Nat} {o : Output} (h : o.endOf? = none) : o.shown n = true := by
  unfold shown
  rw [h]
  rfl

end Output

namespace LockStore

section Unwind

variable (locks : LockStore) (time : UInt64) {n : Nat → Nat}

theorem endOf?_of_mem_heldOutputs {txn : Nat} {seen : List Nat} {s : List Txn} {o : Output}
    (h : o ∈ locks.heldOutputs txn time seen s) : o.endOf? = some txn := by
  induction s generalizing seen with
  | nil => cases h
  | cons t ts ih =>
    unfold heldOutputs at h
    split at h
    · rcases List.mem_cons.mp h with rfl | h
      · rfl
      · exact ih h
    · split at h
      · split at h
        · rcases List.mem_cons.mp h with rfl | h
          · rfl
          · exact ih h
        · exact ih h
        · split at h
          · exact ih h
          · rcases List.mem_cons.mp h with rfl | h
            · rfl
            · exact ih h
      · rcases List.mem_cons.mp h with rfl | h
        · rfl
        · exact ih h

/-- What closing a transaction brings forth, if the transaction leaves a row. -/
theorem endOf?_of_mem_closeOutputs {skipEmpty : Bool} {top : Txn} {below : TxnStack} {o : Output}
    (hwritten : ¬ (skipEmpty = true ∧ top.accesses = 0))
    (h : o ∈ locks.closeOutputs skipEmpty time top below) : o.endOf? = some top.id := by
  unfold closeOutputs at h
  rw [if_neg hwritten] at h
  rcases List.mem_cons.mp h with rfl | h
  · rfl
  · exact locks.endOf?_of_mem_heldOutputs time h

theorem isSuppressed_of_endOf? {o : Output} {i : Nat} (h : o.endOf? = some i) :
    o.isSuppressed = false := by
  cases o with
  | record r => rfl
  | report i => rfl
  | remark r => cases h

/-- What is shown of closing a transaction is what is written if it may be suppressed. -/
theorem filter_closeOutputs (top : Txn) (below : TxnStack) (htop : top.accesses = n top.id) :
    (locks.closeOutputs true time top below).filter (fun o => !o.isSuppressed) =
      (locks.closeOutputs false time top below).filter (Output.shown n) := by
  have hends : ∀ o ∈ locks.closeOutputs false time top below, o.endOf? = some top.id :=
    fun o => locks.endOf?_of_mem_closeOutputs time (by simp)
  by_cases hzero : top.accesses = 0
  · have hnone : (locks.closeOutputs false time top below).filter (Output.shown n) = [] := by
      apply List.filter_eq_nil_iff.mpr
      intro o ho
      simp [Output.shown, hends o ho, ← htop, hzero]
    rw [hnone]
    unfold closeOutputs
    rw [if_pos ⟨rfl, hzero⟩]
    rfl
  · have hsame : locks.closeOutputs true time top below =
        locks.closeOutputs false time top below := by
      unfold closeOutputs
      rw [if_neg fun h => hzero h.2, if_neg (by simp)]
    rw [hsame]
    apply List.filter_congr
    intro o ho
    simp [Output.shown, hends o ho, ← htop, isSuppressed_of_endOf? (hends o ho),
      Nat.pos_of_ne_zero hzero]

/-- What is brought forth besides is the same in any case. -/
theorem filter_eq_of_endOf? {os : List Output}
    (h : ∀ o ∈ os, o.endOf? = none ∧ o.isSuppressed = false) :
    os.filter (fun o => !o.isSuppressed) = os.filter (Output.shown n) := by
  apply List.filter_congr
  intro o ho
  rw [(h o ho).2, Output.shown_of_endOf? (h o ho).1]
  rfl

variable (key : Nat) (side : Side) (ctx : Int64) (purge : Bool)

theorem endOf?_of_mem_purgeOutputs {s : TxnStack} {o : Output}
    (h : o ∈ locks.purgeOutputs key ctx time s) : o.endOf? = none ∧ o.isSuppressed = false := by
  rcases List.mem_append.mp h with h | h
  · obtain ⟨_, _, rfl⟩ := List.mem_map.mp h
    exact ⟨rfl, rfl⟩
  · obtain ⟨_, _, rfl⟩ := List.mem_map.mp h
    exact ⟨rfl, rfl⟩

theorem endOf?_of_mem_mismatchOutputs {top : Txn} {o : Output}
    (h : o ∈ locks.mismatchOutputs key time top) : o.endOf? = none ∧ o.isSuppressed = false := by
  unfold mismatchOutputs at h
  split at h
  · rw [List.mem_singleton.mp h]
    exact ⟨rfl, rfl⟩
  · cases h

theorem filter_unwindOutputs {s : TxnStack} (hs : ∀ t ∈ s, t.accesses = n t.id) :
    (locks.unwindOutputs true key side ctx time purge s).filter (fun o => !o.isSuppressed) =
      (locks.unwindOutputs false key side ctx time purge s).filter (Output.shown n) := by
  induction s with
  | nil => rfl
  | cons top below ih =>
    have hclose := locks.filter_closeOutputs time top below (hs top List.mem_cons_self)
    rw [unwindOutputs, unwindOutputs, List.filter_append, List.filter_append, hclose]
    congr 1
    split
    · split
      · exact filter_eq_of_endOf? fun o => locks.endOf?_of_mem_purgeOutputs time key ctx
      · rfl
    · rw [List.filter_append, List.filter_append, ih fun t ht => hs t (List.mem_cons_of_mem _ ht)]
      congr 1
      exact filter_eq_of_endOf? fun o => locks.endOf?_of_mem_mismatchOutputs time key

/-- A transaction that shows its end has ended. -/
theorem mem_closedIds_of_endOf? {s : TxnStack} {o : Output} {i : Nat}
    (h : o ∈ locks.unwindOutputs false key side ctx time purge s) (hi : o.endOf? = some i) :
    i ∈ (locks.unwindOutputs false key side ctx time purge s).filterMap Output.closedId? := by
  induction s with
  | nil => cases h
  | cons top below ih =>
    rw [unwindOutputs] at h ⊢
    rw [List.filterMap_append, closedIds_closeOutputs]
    rcases List.mem_append.mp h with h | h
    · rw [locks.endOf?_of_mem_closeOutputs time (by simp) h] at hi
      cases hi
      exact List.mem_append_left _ List.mem_cons_self
    · refine List.mem_append_right _ ?_
      split at h
      · split at h
        · rw [(locks.endOf?_of_mem_purgeOutputs time key ctx h).1] at hi
          cases hi
        · cases h
      · next hanchor =>
        rw [if_neg hanchor, List.filterMap_append]
        rcases List.mem_append.mp h with h | h
        · rw [(locks.endOf?_of_mem_mismatchOutputs time key h).1] at hi
          cases hi
        · exact List.mem_append_right _ (ih h)

end Unwind

end LockStore

/-! ### Two monitors -/

namespace Monitor

/-- Two monitors in the same state, of which only `full` writes transactions without accesses.
    Apart from the remarks on these, the outputs of `slim` are those that are shown of `full`. -/
structure Thinned (full slim : Monitor) : Prop where
  alike : Alike full slim
  keeps : full.skipEmpty = false
  skips : slim.skipEmpty = true
  booked : full.Booked
  ended : ∀ o ∈ full.outputs, ∀ i, o.endOf? = some i → i ∈ full.closedIds
  outputs : slim.outputs.filter (fun o => !o.isSuppressed) =
    full.outputs.filter (Output.shown full.accessCount)

namespace Thinned

variable {full slim : Monitor}

theorem initial : Thinned (Monitor.initial false) (Monitor.initial true) where
  alike := ⟨rfl, rfl, rfl⟩
  keeps := rfl
  skips := rfl
  booked := Counted.initial false
  ended o ho := by cases ho
  outputs := rfl

/-- A transaction that is open does not show its end yet. -/
theorem shown_countAccess (h : Thinned full slim) (ctx : Int64) {o : Output}
    (ho : o ∈ full.outputs) :
    o.shown (fun i => full.accessCount i + full.accessesOf i (.countAccess ctx)) =
      o.shown full.accessCount := by
  unfold Output.shown
  cases hend : o.endOf? with
  | none => rfl
  | some i =>
    have hclosed := h.ended o ho i hend
    simp only [Option.all_some, accessesOf_eq_zero (h.booked.not_mem_openIds hclosed), Nat.add_zero]

/-- Both have gone on, and of what `full` brought forth meanwhile `slim` left out what is not
    shown. -/
theorem of_append (h : Thinned full slim) {full' slim' : Monitor} {os os' : List Output}
    (halike : Alike full' slim') (hkeeps : full'.skipEmpty = full.skipEmpty)
    (hskips : slim'.skipEmpty = slim.skipEmpty) (hbooked : full'.Booked)
    (houtputs : full'.outputs = full.outputs ++ os)
    (houtputs' : slim'.outputs = slim.outputs ++ os')
    (hended : ∀ o ∈ os, ∀ i, o.endOf? = some i → i ∈ os.filterMap Output.closedId?)
    (hbefore : ∀ o ∈ full.outputs, o.shown full'.accessCount = o.shown full.accessCount)
    (hafter : os'.filter (fun o => !o.isSuppressed) = os.filter (Output.shown full'.accessCount)) :
    Thinned full' slim' where
  alike := halike
  keeps := hkeeps.trans h.keeps
  skips := hskips.trans h.skips
  booked := hbooked
  ended o ho i hi := by
    unfold closedIds
    rw [houtputs] at ho ⊢
    rw [List.filterMap_append]
    rcases List.mem_append.mp ho with ho | ho
    · exact List.mem_append_left _ (h.ended o ho i hi)
    · exact List.mem_append_right _ (hended o ho i hi)
  outputs := by
    rw [houtputs, houtputs', List.filter_append, List.filter_append, hafter, h.outputs,
      List.filter_congr hbefore]

theorem withOutputs (h : Thinned full slim) {os : List Output} (hos : ∀ o ∈ os, o.Aside) :
    Thinned (full.withOutputs os) (slim.withOutputs os) := by
  have hquiet : ∀ o ∈ os, o.Quiet := fun o ho => (hos o ho).quiet
  have hcount : (full.withOutputs os).accessCount = full.accessCount := by
    unfold accessCount
    rw [accessTable_of_quiet (full.outputs_withOutputs os) hquiet]
  have halike : Alike (full.withOutputs os) (slim.withOutputs os) :=
    ⟨h.alike.locks, h.alike.running, h.alike.txnIds⟩
  apply h.of_append halike rfl rfl (booked_stable.outputs h.booked hquiet)
    (outputs_withOutputs _ _) (outputs_withOutputs _ _)
  · intro o ho i hi
    rw [(hos o ho).endOf?] at hi
    cases hi
  · intro o _
    rw [hcount]
  · apply LockStore.filter_eq_of_endOf?
    intro o ho
    refine ⟨(hos o ho).endOf?, ?_⟩
    have hquiet' := hquiet o ho
    cases o with
    | record r => rfl
    | report i => rfl
    | remark r => cases r <;> first | rfl | exact hquiet'.elim

theorem openTxn (h : Thinned full slim) (key : Nat) (side : Side) (ctx : Int64) (time : UInt64) :
    Thinned (full.openTxn key side ctx time) (slim.openTxn key side ctx time) where
  alike := h.alike.openTxn key side ctx time
  keeps := h.keeps
  skips := h.skips
  booked := booked_stable.openTxn key side ctx time h.booked
  ended := h.ended
  outputs := h.outputs

theorem closeTxn (h : Thinned full slim) (key : Nat) (side : Side) (ctx : Int64) (time : UInt64)
    (purge : Bool) :
    Thinned (full.closeTxn key side ctx time purge).2
      (slim.closeTxn key side ctx time purge).2 := by
  have hcount : (full.closeTxn key side ctx time purge).2.accessCount = full.accessCount := by
    unfold accessCount
    rw [accessTable_closeTxn]
  apply h.of_append (h.alike.closeTxn key side ctx time purge) (skipEmpty_closeTxn ..)
    (skipEmpty_closeTxn ..) (booked_stable.closeTxn key side ctx time purge h.booked)
    (outputs_closeTxn ..) (outputs_closeTxn ..)
  · intro o ho i hi
    rw [h.keeps] at ho ⊢
    exact LockStore.mem_closedIds_of_endOf? _ _ _ _ _ _ ho hi
  · intro o _
    rw [hcount]
  · have haccesses : ∀ t ∈ full.stack ctx, t.accesses = full.accessCount t.id :=
      fun t ht => h.booked.accesses t (mem_openTxns_iff.mpr ⟨ctx, ht⟩)
    rw [hcount, h.alike.stack, h.alike.locks, h.keeps, h.skips]
    exact LockStore.filter_unwindOutputs _ _ _ _ _ _ haccesses

theorem access (h : Thinned full slim) (ctx : Int64) {row : AccessRow}
    (hrow : row.txn = (full.innermost? ctx).map Txn.id) :
    Thinned ((full.countAccess ctx).write (.access row))
      ((slim.countAccess ctx).write (.access row)) := by
  have hcounted := h.alike.countAccess ctx
  have halike : Alike ((full.countAccess ctx).write (.access row))
      ((slim.countAccess ctx).write (.access row)) :=
    ⟨hcounted.locks, hcounted.running, hcounted.txnIds⟩
  have hcount : ((full.countAccess ctx).write (.access row)).accessCount =
      fun i => full.accessCount i + full.accessesOf i (.countAccess ctx) :=
    funext (full.accessCount_access ctx hrow)
  apply h.of_append halike rfl rfl (h.booked.access ctx hrow)
    (outputs_write (full.countAccess ctx) _) (outputs_write (slim.countAccess ctx) _)
  · intro o ho i hi
    rw [List.mem_singleton.mp ho] at hi
    cases hi
  · intro o ho
    rw [hcount]
    exact h.shown_countAccess ctx ho
  · rfl

end Thinned

theorem paired_thinned : Paired Thinned where
  alike h := h.alike
  outputs h hos := h.withOutputs hos
  locks locks h :=
    ⟨⟨rfl, h.alike.running, h.alike.txnIds⟩, h.keeps, h.skips, booked_stable.locks locks h.booked,
      h.ended, h.outputs⟩
  openTxn key side ctx time h := h.openTxn key side ctx time
  closeTxn key side ctx time purge h := h.closeTxn key side ctx time purge
  access ctx _ hrow h := h.access ctx hrow

end Monitor

/-! ### What is left out -/

/-- The transaction to whose end a record belongs. -/
def Record.endOf? : Record → Option Nat
  | .txn row => some row.id
  | .held row => some row.txn
  | _ => none

/-- The transaction that a record of an access names. -/
def Record.accessTxn? : Record → Option Nat
  | .access row => row.txn
  | _ => none

/-- The numbers of the transactions that accesses name. -/
def Journal.accessTxns (j : Journal) : List Nat := j.records.filterMap Record.accessTxn?

namespace Monitor

theorem accessCount_pos_iff {m : Monitor} {i : Nat} :
    0 < m.accessCount i ↔ i ∈ m.journal.accessTxns := by
  unfold accessCount accessTable Journal.accessTxns Journal.records
  rw [List.countP_pos_iff, List.filterMap_filterMap, List.mem_filterMap]
  constructor
  · rintro ⟨row, hrow, hi⟩
    obtain ⟨o, ho, hrow⟩ := List.mem_filterMap.mp hrow
    unfold Output.accessRow? at hrow
    split at hrow
    · cases hrow
      exact ⟨_, ho, of_decide_eq_true hi⟩
    · cases hrow
  · rintro ⟨o, ho, hi⟩
    obtain ⟨r, hr, hi⟩ := Option.bind_eq_some_iff.mp hi
    unfold Record.accessTxn? at hi
    split at hi
    · next row =>
      cases o with
      | record r =>
        cases hr
        exact ⟨row, List.mem_filterMap.mpr ⟨_, ho, rfl⟩, decide_eq_true hi⟩
      | report i => cases hr
      | remark r => cases hr
    · cases hi

namespace Thinned

variable {full slim : Monitor}

theorem records (h : Thinned full slim) :
    slim.journal.records = full.journal.records.filter fun r =>
      r.endOf?.all fun i => decide (i ∈ full.journal.accessTxns) := by
  have hslim : (slim.outputs.filter fun o => !o.isSuppressed).filterMap Output.record? =
      slim.journal.records.filter fun _ => true := by
    apply filterMap_filter_of_iff
    intro o r hr
    cases o with
    | record r => rfl
    | report i => cases hr
    | remark r => cases hr
  have hfull : (full.outputs.filter (Output.shown full.accessCount)).filterMap Output.record? =
      full.journal.records.filter fun r =>
        r.endOf?.all fun i => decide (i ∈ full.journal.accessTxns) := by
    apply filterMap_filter_of_iff
    intro o r hr
    cases o with
    | record r =>
      cases hr
      unfold Output.shown
      simp only [accessCount_pos_iff]
      cases r <;> rfl
    | report i => cases hr
    | remark r => cases hr
  rw [List.filter_true, h.outputs, hfull] at hslim
  exact hslim.symm

/-- Transactions end in both at the same time, and in both as many are purged. -/
theorem purgedIds (h : Thinned full slim) : slim.purgedIds = full.purgedIds := by
  have hslim : (slim.outputs.filter fun o => !o.isSuppressed).filterMap Output.purgedId? =
      slim.purgedIds.filter fun _ => true := by
    apply filterMap_filter_of_iff
    intro o i hi
    unfold Output.purgedId? at hi
    split at hi
    · rfl
    · cases hi
  have hfull : (full.outputs.filter (Output.shown full.accessCount)).filterMap Output.purgedId? =
      full.purgedIds.filter fun _ => true := by
    apply filterMap_filter_of_iff
    intro o i hi
    unfold Output.purgedId? at hi
    split at hi
    · rfl
    · cases hi
  rw [List.filter_true] at hslim hfull
  rw [← hslim, ← hfull, h.outputs]

theorem openTxns (h : Thinned full slim) : slim.openTxns = full.openTxns := by
  unfold Monitor.openTxns
  rw [h.alike.running]

/-- A transaction that leaves no row is counted as suppressed. -/
theorem emitted (h : Thinned full slim) (hconserved : slim.Conserved) (hfull : full.Tallied)
    (hslim : slim.Tallied) : slim.stats.emitted + slim.stats.suppressed = full.stats.emitted := by
  have hnone : full.suppressedIds = [] := by
    apply List.eq_nil_iff_forall_not_mem.mpr
    intro i hi
    have hskip := (h.booked.suppressed i hi).1
    rw [h.keeps] at hskip
    cases hskip
  have hclosed := full.closedIds_perm.length_eq
  have hclosed' := slim.closedIds_perm.length_eq
  have hissued := h.booked.conserved.perm.length_eq
  have hissued' := hconserved.perm.length_eq
  unfold openIds at hissued hissued'
  rw [h.openTxns, h.alike.txnIds] at hissued'
  simp only [List.length_append] at hclosed hclosed' hissued hissued'
  rw [hfull.emitted, hnone, List.length_nil] at hclosed
  rw [hslim.emitted, hslim.suppressed, h.purgedIds] at hclosed'
  omega

/-- The name of a report that may be left out. -/
theorem name_of_endOf? {i : Inconsistency} {txn : Nat} (h : (Output.report i).endOf? = some txn) :
    i.name ∈ Inconsistency.internalNames ∨ i.name = "dangling_lock" := by
  unfold Output.endOf? at h
  split at h
  · next heq => cases heq
  · next heq => cases heq
  · next heq =>
    cases heq
    exact Or.inl (by simp [Inconsistency.name, AnchorFault.name, Inconsistency.internalNames])
  · next heq =>
    cases heq
    exact Or.inl (by simp [Inconsistency.name, AnchorFault.name, Inconsistency.internalNames])
  · next heq =>
    cases heq
    exact Or.inr rfl
  · cases h

theorem count_tally (h : Thinned full slim) (hfull : full.journal.Counts)
    (hslim : slim.journal.Counts) (hsound : full.Sound) (hsound' : slim.Sound) {name : String}
    (hname : name ≠ "dangling_lock") :
    slim.journal.tally.count name = full.journal.tally.count name := by
  rw [hfull name, hslim name]
  by_cases hinternal : name ∈ Inconsistency.internalNames
  · have hzero : ∀ {m : Monitor}, m.Sound →
        m.journal.outputs.toList.countP (Output.hasName name) = 0 := by
      intro m hm
      apply List.countP_eq_zero.mpr
      intro o ho hname
      obtain ⟨i, rfl, hi⟩ := Output.exists_of_hasName hname
      apply hm.external_of_mem_reports (List.mem_filterMap.mpr ⟨_, ho, rfl⟩)
      rw [hi]
      exact hinternal
    rw [hzero hsound, hzero hsound']
  · -- no output with this name is left out
    have hshown : ∀ o : Output, o.hasName name = true →
        o.shown full.accessCount = true ∧ o.isSuppressed = false := by
      intro o ho
      obtain ⟨i, rfl, hi⟩ := Output.exists_of_hasName ho
      refine ⟨?_, rfl⟩
      cases hend : (Output.report i).endOf? with
      | none => exact Output.shown_of_endOf? hend
      | some txn =>
        rcases name_of_endOf? hend with hmem | hdangling
        · exact absurd (hi ▸ hmem) hinternal
        · exact absurd (hi.symm.trans hdangling) hname
    have hfilter : ∀ (os : List Output) (p : Output → Bool),
        (∀ o : Output, o.hasName name = true → p o = true) →
        (os.filter p).countP (Output.hasName name) = os.countP (Output.hasName name) := by
      intro os p hp
      rw [List.countP_filter]
      apply List.countP_congr
      intro o _
      constructor
      · intro ho
        exact (Bool.and_eq_true_iff.mp ho).1
      · intro ho
        exact Bool.and_eq_true_iff.mpr ⟨ho, hp o ho⟩
    have hboth := congrArg (List.countP (Output.hasName name)) h.outputs
    rw [hfilter _ _ fun o ho => (hshown o ho).1,
      hfilter _ _ fun o ho => by rw [(hshown o ho).2]; rfl] at hboth
    exact hboth

end Thinned

end Monitor

namespace Session

/-- `slim` is `full` but for what is written of transactions that no access names. These leave
    neither a row nor rows of what they held, and it is not reported that such a row is missing
    because its lock is gone; they are counted instead. -/
structure Thins (full slim : Session) : Prop where
  rest : slim = { full with monitor := slim.monitor }
  locks : slim.monitor.locks = full.monitor.locks
  running : slim.monitor.running = full.monitor.running
  txnIds : slim.monitor.txnIds = full.monitor.txnIds
  records : slim.journal.records = full.journal.records.filter fun r =>
    r.endOf?.all fun i => decide (i ∈ full.journal.accessTxns)
  others : slim.journal.records.filter (fun r => r.endOf?.isNone) =
    full.journal.records.filter fun r => r.endOf?.isNone
  counts : ∀ name, name ≠ "dangling_lock" →
    slim.journal.tally.count name = full.journal.tally.count name
  emitted : slim.monitor.stats.emitted + slim.monitor.stats.suppressed = full.monitor.stats.emitted

/-- What is known of one session alone. -/
theorem books_of_run (config : Config) (symbols : SymbolTable) (es : List Event) :
    let s := ((Session.initial config symbols).run es).1
    ∀ m ∈ [s.monitor, s.finish.monitor],
      m.Conserved ∧ m.Tallied ∧ m.journal.Counts ∧ m.Sound := by
  intro s
  have hstart : (Session.initial config symbols).monitor.InStep ∧
      (Session.initial config symbols).monitor.Sound :=
    ⟨inStep_initial config symbols, .initial config.skipEmpty⟩
  have hrun : s.monitor.InStep ∧ s.monitor.Sound := Monitor.kept_sound.run hstart es
  have hfinish : s.finish.monitor.Sound :=
    Monitor.kept_sound.finish hrun (fun time h => h.2.closeAll h.1.grounded time)
      fun h hplain => h.of_plain hplain
  have hbooks : ∀ {m : Monitor}, Monitor.Moves true (Session.initial config symbols).monitor m →
      m.Conserved ∧ m.Tallied ∧ m.journal.Counts := by
    intro m hmoves
    refine ⟨(Monitor.Conserved.initial config.skipEmpty).moves hmoves, ?_, ?_⟩
    · refine Monitor.Tallied.stable.moves ?_ hmoves (.initial config.skipEmpty)
      intro m ctx row h _
      exact Monitor.Tallied.of_silent ⟨h.issued, h.emitted, h.suppressed⟩
        (Monitor.outputs_write (m.countAccess ctx) (.access row)) rfl rfl
        (by simp [Output.txnRowId?, Output.suppressedId?, Output.record?, Record.txnId?])
    · refine Monitor.counts_stable.moves ?_ hmoves (fun _ => rfl)
      exact fun _ _ h _ => h.add _
  have hmoves := (Session.initial config symbols).moves_run es
  intro m hm
  rcases List.mem_cons.mp hm with rfl | hm
  · obtain ⟨hconserved, htallied, hcounts⟩ := hbooks hmoves
    exact ⟨hconserved, htallied, hcounts, hrun.2⟩
  · rw [List.mem_singleton.mp hm]
    obtain ⟨hconserved, htallied, hcounts⟩ := hbooks (hmoves.trans s.moves_finish.weaken)
    exact ⟨hconserved, htallied, hcounts, hfinish⟩

theorem thins_of_thinned {full : Session} {m : Monitor} (h : full.monitor.Thinned m)
    (hconserved : m.Conserved) (htallied : full.monitor.Tallied) (htallied' : m.Tallied)
    (hcounts : full.journal.Counts) (hcounts' : m.journal.Counts) (hsound : full.monitor.Sound)
    (hsound' : m.Sound) : full.Thins { full with monitor := m } where
  rest := rfl
  locks := h.alike.locks
  running := h.alike.running
  txnIds := h.alike.txnIds
  records := h.records
  others := by
    have hrecords : (Session.journal { full with monitor := m }).records = _ := h.records
    rw [hrecords, List.filter_filter]
    apply List.filter_congr
    intro r _
    cases hend : r.endOf? <;> simp
  counts name hname := h.count_tally hcounts hcounts' hsound hsound' hname
  emitted := h.emitted hconserved htallied htallied'

/-- Two sessions on one trace, of which only the second leaves out transactions without accesses,
    stop at the same event or at none, and are the same after it and after the end but for what is
    left out. As the trace is any, they are so after each of its events. -/
theorem thins_of_run (config : Config) (symbols : SymbolTable) (es : List Event) :
    let full := (Session.initial { config with skipEmpty := false } symbols).run es
    let slim := (Session.initial { config with skipEmpty := true } symbols).run es
    slim.2 = full.2 ∧ full.1.Thins slim.1 ∧ full.1.finish.Thins slim.1.finish := by
  intro full slim
  obtain ⟨m, hrun, hthinned⟩ := Monitor.paired_thinned.run
    (s := Session.initial { config with skipEmpty := false } symbols) Monitor.Thinned.initial es
  obtain ⟨m', hfinish, hthinned'⟩ := Monitor.paired_thinned.finish hthinned
  have hslim : slim = ({ full.1 with monitor := m }, full.2) := hrun
  have hslim' : slim.1.finish = { full.1.finish with monitor := m' } := by
    rw [hslim]
    exact hfinish
  have hfull := books_of_run { config with skipEmpty := false } symbols es
  have hbooks := books_of_run { config with skipEmpty := true } symbols es
  refine ⟨by rw [hslim], ?_, ?_⟩
  · obtain ⟨_, htallied, hcounts, hsound⟩ := hfull full.1.monitor (by simp [full])
    obtain ⟨hconserved, htallied', hcounts', hsound'⟩ := hbooks slim.1.monitor (by simp [slim])
    rw [hslim] at hconserved htallied' hcounts' hsound' ⊢
    exact thins_of_thinned hthinned hconserved htallied htallied' hcounts hcounts' hsound hsound'
  · obtain ⟨_, htallied, hcounts, hsound⟩ := hfull full.1.finish.monitor (by simp [full])
    obtain ⟨hconserved, htallied', hcounts', hsound'⟩ :=
      hbooks slim.1.finish.monitor (by simp [slim])
    rw [hslim'] at hconserved htallied' hcounts' hsound' ⊢
    exact thins_of_thinned hthinned' hconserved htallied htallied' hcounts hcounts' hsound hsound'

end Session

end LockTrace
