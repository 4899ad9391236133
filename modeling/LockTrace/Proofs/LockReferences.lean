import LockTrace.Proofs.Following
import LockTrace.Proofs.LockRows

/-!
# What the rows on held sub-locks refer to

A row on a held sub-lock names a transaction and a sub-lock. The transaction is the one that was
written last, since a transaction is written together with what it held, and the sub-lock has its
row already, since a lock is written when it is created (`Record.HeldAfter`). Whatever a session
does keeps all such rows in their places, and the rows on locks numbered without a gap
(`Monitor.kept_linked`).
-/

namespace LockTrace

/-! ### Lists in succession -/

/-- Each element stands in a relation to the list of those before it, which starts with
    `before`. -/
def Successive {α : Type} (P : List α → α → Prop) (before : List α) : List α → Prop
  | [] => True
  | a :: as => P before a ∧ Successive P (before ++ [a]) as

namespace Successive

variable {α : Type} {P : List α → α → Prop} {before as bs : List α}

theorem append_iff : Successive P before (as ++ bs) ↔
    Successive P before as ∧ Successive P (before ++ as) bs := by
  induction as generalizing before with
  | nil => simp [Successive]
  | cons a as ih => simp [Successive, ih, and_assoc]

theorem of_forall (h : ∀ a ∈ as, ∀ later, P (before ++ later) a) : Successive P before as := by
  induction as generalizing before with
  | nil => trivial
  | cons a as ih =>
    refine ⟨?_, ih ?_⟩
    · simpa using h a List.mem_cons_self []
    · intro b hb later
      rw [List.append_assoc]
      exact h b (List.mem_cons_of_mem _ hb) ([a] ++ later)

theorem of_split {after : List α} {a : α} (h : Successive P [] (before ++ a :: after)) :
    P before a := (append_iff.mp h).2.1

end Successive

/-! ### Records -/

namespace Record

/-- The rows so far end with a transaction, as far as transactions are concerned. -/
def lastTxn? (before : List Record) : Option Nat := (before.filterMap txnId?).getLast?

/-- A row on a held sub-lock names the transaction that was written last and a sub-lock that has
    its row. -/
def HeldAfter (before : List Record) (r : Record) : Prop :=
  ∀ row, r = .held row → lastTxn? before = some row.txn ∧ ∃ l, .lock l ∈ before ∧ l.id = row.lock

end Record

namespace Monitor

variable {m m' : Monitor}

theorem records_of_append {os : List Output} (h : m'.outputs = m.outputs ++ os) :
    m'.journal.records = m.journal.records ++ os.filterMap Output.record? := by
  have hrecords := congrArg (List.filterMap Output.record?) h
  rwa [List.filterMap_append] at hrecords

theorem mem_lockTable_iff {row : LockRow} :
    row ∈ m.lockTable ↔ .lock row ∈ m.journal.records := by
  have hinverse : ∀ (o : Output) (row : LockRow),
      o.lockRow? = some row ↔ o = .record (.lock row) := by
    intro o row
    unfold Output.lockRow?
    split <;> simp_all
  exact (mem_filterMap_iff_of_inverse hinverse).trans Output.mem_records_iff.symm

end Monitor

/-! ### The rows of transactions that are closed -/

namespace LockStore

/-- The sides of all live locks have their rows. -/
def Listed (locks : LockStore) (before : List Record) : Prop :=
  ∀ key lock, locks.get? key = some lock → ∀ side id, lock.subLocks.id? side = some id →
    ∃ l, .lock l ∈ before ∧ l.id = id

variable {locks : LockStore} {time : UInt64} {before : List Record}

theorem Listed.append (h : locks.Listed before) (rs : List Record) :
    locks.Listed (before ++ rs) := by
  intro key lock hget side id hid
  obtain ⟨l, hl, hl'⟩ := h key lock hget side id hid
  exact ⟨l, List.mem_append_left _ hl, hl'⟩

theorem successive_heldOutputs {txn : Nat} {seen : List Nat} {s : List Txn}
    (hlast : Record.lastTxn? before = some txn) (hlisted : locks.Listed before) :
    Successive Record.HeldAfter before
      ((locks.heldOutputs txn time seen s).filterMap Output.record?) := by
  induction s generalizing seen before with
  | nil => trivial
  | cons t ts ih =>
    unfold heldOutputs
    split
    · exact ih hlast hlisted
    · next lock hget =>
      split
      · split
        · exact ih hlast hlisted
        · exact ih hlast hlisted
        · next latest _ id _ hid =>
          split
          · exact ih hlast hlisted
          · refine ⟨?_, ih ?_ (hlisted.append _)⟩
            · rintro row hrow
              cases hrow
              exact ⟨hlast, hlisted t.lock lock hget t.side id hid⟩
            · -- the row is none on a transaction
              simpa [Record.lastTxn?, Record.txnId?] using hlast
      · exact ih hlast hlisted

theorem successive_closeOutputs (skipEmpty : Bool) (top : Txn) (below : TxnStack)
    (hlisted : locks.Listed before) :
    Successive Record.HeldAfter before
      ((locks.closeOutputs skipEmpty time top below).filterMap Output.record?) := by
  unfold closeOutputs
  split
  · trivial
  · refine ⟨fun row hrow => (by cases hrow), ?_⟩
    apply successive_heldOutputs _ (hlisted.append _)
    simp [Record.lastTxn?, Record.txnId?]

theorem successive_unwindOutputs (skipEmpty : Bool) (key : Nat) (side : Side) (ctx : Int64)
    (purge : Bool) (s : TxnStack) (hlisted : locks.Listed before) :
    Successive Record.HeldAfter before
      ((locks.unwindOutputs skipEmpty key side ctx time purge s).filterMap Output.record?) := by
  induction s generalizing before with
  | nil => trivial
  | cons top below ih =>
    have hpurged : (locks.purgeOutputs key ctx time below).filterMap Output.record? = [] := by
      apply Output.filterMap_eq_nil_of_none
      intro o ho
      exact purgeOutputs_forall (P := fun o => o.record? = none) locks key ctx time (fun _ => rfl)
        (fun _ => rfl) ho
    have hmismatch : (locks.mismatchOutputs key time top).filterMap Output.record? = [] := by
      apply Output.filterMap_eq_nil_of_none
      intro o ho
      exact mismatchOutputs_forall (P := fun o => o.record? = none) locks key time (fun _ => rfl) ho
    rw [unwindOutputs, List.filterMap_append, Successive.append_iff]
    refine ⟨successive_closeOutputs skipEmpty top below hlisted, ?_⟩
    split
    · split
      · rw [hpurged]
        trivial
      · trivial
    · rw [List.filterMap_append, hmismatch]
      exact ih (hlisted.append _)

end LockStore

/-! ### Whatever a session does -/

namespace Monitor

/-- The rows on held sub-locks are in their places, every side of a live lock has its row, and
    the rows on locks are numbered without a gap. -/
structure Linked (m : Monitor) : Prop where
  held : Successive Record.HeldAfter [] m.journal.records
  numbered : m.Numbered
  positive : 0 < m.locks.subLockIds.next
  lockIds : (m.lockTable.map LockRow.id).Perm (List.range' 1 m.locks.subLockIds.issued)

namespace Linked

variable {m m' : Monitor}

theorem initial (skipEmpty : Bool) : (Monitor.initial skipEmpty).Linked where
  held := trivial
  numbered := .initial skipEmpty
  positive := Nat.one_pos
  lockIds := List.Perm.refl _

theorem listed (h : m.Linked) : m.locks.Listed m.journal.records := by
  intro key lock hget side id hid
  obtain ⟨row, hrow, hrow', _⟩ := h.numbered.rows key lock hget side id hid
  exact ⟨row, mem_lockTable_iff.mp hrow, hrow'⟩

/-- More is written but rows on locks, and live locks are those from before or gone. -/
theorem of_append (h : m.Linked) {os : List Output} (houtputs : m'.outputs = m.outputs ++ os)
    (hos : Successive Record.HeldAfter m.journal.records (os.filterMap Output.record?))
    (hrows : os.filterMap Output.lockRow? = [])
    (hids : m'.locks.subLockIds = m.locks.subLockIds)
    (hlocks : ∀ key lock', m'.locks.get? key = some lock' →
      ∃ lock, m.locks.get? key = some lock ∧ lock.Same lock') : m'.Linked := by
  have htable : m'.lockTable = m.lockTable := by
    rw [lockTable_of_append houtputs, hrows, List.append_nil]
  refine ⟨?_, h.numbered.of_same htable hids hlocks, hids ▸ h.positive, ?_⟩
  · rw [records_of_append houtputs]
    exact Successive.append_iff.mpr ⟨h.held, hos⟩
  · rw [htable, hids]
    exact h.lockIds

/-- Nothing that is written is a row on a lock or on a held sub-lock. -/
theorem keep (h : m.Linked) {os : List Output} (houtputs : m'.outputs = m.outputs ++ os)
    (hheld : ∀ row, .record (.held row) ∉ os) (hlock : ∀ row, .record (.lock row) ∉ os)
    (hids : m'.locks.subLockIds = m.locks.subLockIds)
    (hlocks : ∀ key lock', m'.locks.get? key = some lock' →
      ∃ lock, m.locks.get? key = some lock ∧ lock.Same lock') : m'.Linked := by
  refine h.of_append houtputs (Successive.of_forall ?_) (Output.filterMap_eq_nil_of_none ?_) hids
    hlocks
  · rintro r hr later row rfl
    exact absurd (Output.mem_records_iff.mp hr) (hheld row)
  · intro o ho
    unfold Output.lockRow?
    split
    · next row => exact absurd ho (hlock row)
    · rfl

theorem withOutputs (h : m.Linked) {os : List Output} (hheld : ∀ row, .record (.held row) ∉ os)
    (hlock : ∀ row, .record (.lock row) ∉ os) : (m.withOutputs os).Linked :=
  h.keep (m.outputs_withOutputs os) hheld hlock rfl fun _ lock hget => ⟨lock, hget, .refl lock⟩

theorem report (h : m.Linked) (i : Inconsistency) : (m.report i).Linked := by
  rw [report_eq_withOutputs]
  exact h.withOutputs (by simp) (by simp)

theorem modifyLock (h : m.Linked) (key : Nat) {f : Lock → Lock}
    (hf : ∀ lock : Lock, lock.Same (f lock)) : (m.modifyLock key f).Linked :=
  h.keep (List.append_nil m.outputs).symm (by simp) (by simp) rfl
    fun _ _ hget => LockStore.exists_same_of_get?_modify hf hget

theorem closeTxn (h : m.Linked) (key : Nat) (side : Side) (ctx : Int64) (time : UInt64)
    (purge : Bool) : (m.closeTxn key side ctx time purge).2.Linked := by
  have hlocks := m.locks_closeTxn key side ctx time purge
  refine h.of_append (m.outputs_closeTxn key side ctx time purge) ?_ ?_ ?_ ?_
  · exact LockStore.successive_unwindOutputs m.skipEmpty key side ctx purge _ h.listed
  · apply Output.filterMap_eq_nil_of_none
    intro o ho
    exact LockStore.unwindOutputs_forall (P := fun o => o.lockRow? = none) _ _ _ _ _ _ _
      (fun _ => rfl) (fun _ => rfl) (fun _ _ _ _ => rfl) (fun _ _ _ _ => rfl) ho
  · rw [hlocks]
  · rw [hlocks]
    exact fun key lock hget => ⟨lock, hget, .refl lock⟩

theorem step (h : m.Linked) (key : Nat) (t : Transition) : (m.step key t).1.Linked := by
  apply step_induction (P := Linked) _ _ _ _ h
  · exact fun m i _ h => h.report i
  · exact fun m f hf h => h.modifyLock key hf
  · intro m h
    exact h.keep (List.append_nil m.outputs).symm (by simp) (by simp) rfl
      fun _ lock hget => ⟨lock, hget, .refl lock⟩
  · exact fun m side owner purge h _ => h.closeTxn key side owner t.time purge

theorem withLock (h : m.Linked) (address : UInt64) (label : String) (kind : LockKind)
    (flags : UInt32) (placement : Placement) :
    (m.withLock address label kind flags placement).Linked := by
  have houtputs := m.outputs_withLock address label kind flags placement
  refine ⟨?_, h.numbered.withLock address label kind flags placement, ?_, ?_⟩
  · rw [records_of_append houtputs]
    refine Successive.append_iff.mpr ⟨h.held, Successive.of_forall ?_⟩
    rintro r hr later row rfl
    obtain ⟨side, _, hrow⟩ := List.mem_map.mp (Output.mem_records_iff.mp hr)
    cases hrow
  · exact Nat.lt_of_lt_of_le h.positive (SubLocks.next_le_assign kind _)
  · rw [lockTable_of_append houtputs, lockRow?_lockRows, List.map_append, List.map_map]
    exact (h.lockIds.append_right _).trans (SubLocks.range'_sides_assign_perm kind h.positive)

theorem freeRange (h : m.Linked) (base size time : UInt64) :
    (m.freeRange base size time).2.Linked := by
  refine h.keep (m.outputs_freeRange base size time) (by simp) (by simp) ?_ ?_
  · exact m.locks.subLockIds_freeRange base size time
  · intro key lock hget
    have hfreed : (m.locks.freeRange base size time).store.get? key = some lock := hget
    exact ⟨lock, LockStore.get?_of_get?_freeRange hfreed, .refl lock⟩

theorem closeAll (h : m.Linked) (time : UInt64) : (m.closeAll time).Linked := by
  apply closeAll_induction (P := Linked) _ _ h
  · intro m count ctx h
    have hremark : (m.withOutputs [.remark (.stillActive count ctx)]).Linked :=
      h.withOutputs (by simp) (by simp)
    exact hremark
  · exact fun m ctx top below h _ => h.closeTxn top.lock top.side ctx time false

end Linked

theorem kept_linked : Kept Linked := fun _ => {
  plain h hplain := h.withOutputs (fun _ hrow => hplain _ hrow) (fun _ hrow => hplain _ hrow)
  unseen _ _ _ _ h := h.report _
  access ctx row h := h.keep (Monitor.outputs_write (Monitor.countAccess _ ctx) (.access row))
    (by simp) (by simp) rfl fun _ lock hget => ⟨lock, hget, .refl lock⟩
  withLock address label kind flags placement _ h := h.withLock address label kind flags placement
  freeRange base size time h := h.freeRange base size time
  operate key t _ h := h.step key t }

end Monitor

end LockTrace
