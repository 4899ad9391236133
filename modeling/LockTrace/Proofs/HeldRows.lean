import LockTrace.Proofs.AccessRows

/-!
# The rows of held sub-locks

When a transaction is written, the sub-locks of the transactions below it and its own are
written with it. A transaction is backed if its lock is live, held, and has a position and the
side of the transaction. While all of a stack is backed, closing transactions reports nothing,
and each one that is written gets one row for every sub-lock of the stack from it downwards
(`heldOutputs_eq`). No other output names the transaction in a row of this table, so these
rows are all that it ever gets (`heldRowsOf_unwindOutputs`).
-/

namespace LockTrace

/-! ### Rows of one transaction -/

namespace Output

def heldRow? : Output → Option HeldRow
  | .record (.held row) => some row
  | _ => none

/-- The rows on sub-locks held while the transaction `txn` ran, among some outputs. -/
def heldRowsOf (txn : Nat) (os : List Output) : List HeldRow :=
  (os.filterMap heldRow?).filter (fun row => decide (row.txn = txn))

theorem heldRowsOf_append (txn : Nat) (os ps : List Output) :
    heldRowsOf txn (os ++ ps) = heldRowsOf txn os ++ heldRowsOf txn ps := by
  unfold heldRowsOf
  rw [List.filterMap_append, List.filter_append]

theorem eq_of_heldRow? {o : Output} {row : HeldRow} (h : o.heldRow? = some row) :
    o = .record (.held row) := by
  unfold heldRow? at h
  split at h
  · cases h
    rfl
  · cases h

theorem heldRowsOf_eq_nil {txn : Nat} {os : List Output}
    (h : ∀ o ∈ os, ∀ row, o = Output.record (.held row) → row.txn ≠ txn) :
    heldRowsOf txn os = [] := by
  apply List.filter_eq_nil_iff.mpr
  intro row hrow
  obtain ⟨o, ho, heq⟩ := List.mem_filterMap.mp hrow
  simpa using h o ho row (eq_of_heldRow? heq)

theorem heldRowsOf_map {txn : Nat} {rows : List HeldRow} (h : ∀ row ∈ rows, row.txn = txn) :
    heldRowsOf txn (rows.map fun row => .record (.held row)) = rows := by
  have hrows : (rows.map fun row => Output.record (.held row)).filterMap heldRow? = rows := by
    rw [List.filterMap_map]
    exact List.filterMap_some
  unfold heldRowsOf
  rw [hrows]
  apply List.filter_eq_self.mpr
  intro row hrow
  exact decide_eq_true (h row hrow)

end Output

namespace LockStore

/-! ### Backed transactions -/

def subLockId? (locks : LockStore) (t : Txn) : Option Nat :=
  (locks.get? t.lock).bind (·.subLocks.id? t.side)

/-- The address and the side at which a transaction is anchored. -/
def anchor? (locks : LockStore) (t : Txn) : Option (UInt64 × Side) :=
  (locks.get? t.lock).map fun lock => (lock.address, t.side)

theorem anchor?_of_get? {locks : LockStore} {t : Txn} {lock : Lock}
    (hget : locks.get? t.lock = some lock) : locks.anchor? t = some (lock.address, t.side) := by
  unfold anchor?
  rw [hget]
  rfl

theorem subLockId?_of_get? {locks : LockStore} {t : Txn} {lock : Lock} {id : Nat}
    (hget : locks.get? t.lock = some lock) (hid : lock.subLocks.id? t.side = some id) :
    locks.subLockId? t = some id := by
  unfold subLockId?
  rw [hget]
  exact hid

/-- The lock of a transaction is live and held, and has a position and the side. -/
def Backs (locks : LockStore) (t : Txn) : Prop :=
  ∃ lock id, locks.get? t.lock = some lock ∧ lock.isHeld = true ∧ lock.history ≠ [] ∧
    lock.subLocks.id? t.side = some id

/-- The rows are those of the transaction `txn`, and name every sub-lock of the stack once
    that is not yet seen. -/
structure Lists (locks : LockStore) (txn : Nat) (seen : List Nat) (s : List Txn)
    (rows : List HeldRow) : Prop where
  txn_eq : ∀ row ∈ rows, row.txn = txn
  nodup : (rows.map HeldRow.lock).Nodup
  mem_iff : ∀ id, id ∈ rows.map HeldRow.lock ↔ id ∉ seen ∧ ∃ t ∈ s, locks.subLockId? t = some id

namespace Lists

variable {locks : LockStore} {txn : Nat} {seen : List Nat} {s : List Txn} {rows : List HeldRow}

theorem nil : locks.Lists txn seen [] [] where
  txn_eq row hrow := by cases hrow
  nodup := List.nodup_nil
  mem_iff := by simp

theorem skip (h : locks.Lists txn seen s rows) {t : Txn} {id : Nat}
    (hsub : locks.subLockId? t = some id) (hseen : id ∈ seen) :
    locks.Lists txn seen (t :: s) rows where
  txn_eq := h.txn_eq
  nodup := h.nodup
  mem_iff k := by
    rw [h.mem_iff]
    constructor
    · rintro ⟨hk, u, hu, hsubu⟩
      exact ⟨hk, u, List.mem_cons_of_mem _ hu, hsubu⟩
    · rintro ⟨hk, u, hu, hsubu⟩
      rcases List.mem_cons.mp hu with rfl | hu
      · rw [hsub] at hsubu
        cases hsubu
        exact absurd hseen hk
      · exact ⟨hk, u, hu, hsubu⟩

theorem cons {row : HeldRow} (h : locks.Lists txn (row.lock :: seen) s rows) {t : Txn}
    (hsub : locks.subLockId? t = some row.lock) (hseen : row.lock ∉ seen) (htxn : row.txn = txn) :
    locks.Lists txn seen (t :: s) (row :: rows) where
  txn_eq r hr := by
    rcases List.mem_cons.mp hr with rfl | hr
    · exact htxn
    · exact h.txn_eq r hr
  nodup := by
    rw [List.map_cons, List.nodup_cons]
    refine ⟨?_, h.nodup⟩
    intro hagain
    exact ((h.mem_iff row.lock).mp hagain).1 List.mem_cons_self
  mem_iff k := by
    rw [List.map_cons, List.mem_cons, h.mem_iff, List.mem_cons, not_or]
    constructor
    · rintro (rfl | ⟨⟨_, hk⟩, u, hu, hsubu⟩)
      · exact ⟨hseen, t, List.mem_cons_self, hsub⟩
      · exact ⟨hk, u, List.mem_cons_of_mem _ hu, hsubu⟩
    · rintro ⟨hk, u, hu, hsubu⟩
      by_cases hrow : k = row.lock
      · exact Or.inl hrow
      · rcases List.mem_cons.mp hu with rfl | hu
        · rw [hsub] at hsubu
          exact absurd (Option.some.inj hsubu).symm hrow
        · exact Or.inr ⟨⟨hrow, hk⟩, u, hu, hsubu⟩

end Lists

/-- While all of a stack is backed, its outputs are rows, one for each sub-lock that is not
    yet seen. -/
theorem heldOutputs_eq (locks : LockStore) (txn : Nat) (time : UInt64) {s : List Txn}
    (hs : ∀ t ∈ s, locks.Backs t) (seen : List Nat) :
    ∃ rows : List HeldRow,
      locks.heldOutputs txn time seen s = rows.map (fun row => .record (.held row)) ∧
      locks.Lists txn seen s rows := by
  induction s generalizing seen with
  | nil => exact ⟨[], rfl, .nil⟩
  | cons t ts ih =>
    obtain ⟨lock, id, hget, hheld, hhistory, hid⟩ := hs t List.mem_cons_self
    have hts : ∀ u ∈ ts, locks.Backs u := fun u hu => hs u (List.mem_cons_of_mem _ hu)
    have hsub := subLockId?_of_get? hget hid
    obtain ⟨latest, older, hpositions⟩ := List.exists_cons_of_ne_nil hhistory
    simp only [heldOutputs, hget, hheld, if_true, hpositions, hid]
    by_cases hseen : id ∈ seen
    · obtain ⟨rows, heq, hlists⟩ := ih hts seen
      rw [if_pos hseen]
      exact ⟨rows, heq, hlists.skip hsub hseen⟩
    · obtain ⟨rows, heq, hlists⟩ := ih hts (id :: seen)
      rw [if_neg hseen, heq]
      exact ⟨⟨txn, id, latest.toAcquisition⟩ :: rows, rfl, hlists.cons hsub hseen rfl⟩

/-! ### Closing transactions that are backed -/

section Unwind

variable (locks : LockStore) (skipEmpty : Bool) (key : Nat) (side : Side) (ctx : Int64)
  (time : UInt64) (purge : Bool)

theorem heldRowsOf_closeOutputs_of_ne {txn : Nat} {top : Txn} {below : TxnStack}
    (h : top.id ≠ txn) :
    Output.heldRowsOf txn (locks.closeOutputs skipEmpty time top below) = [] := by
  apply Output.heldRowsOf_eq_nil
  intro o ho
  refine closeOutputs_forall (P := fun o => ∀ row, o = .record (.held row) → row.txn ≠ txn)
    locks skipEmpty time ?_ ?_ ?_ ?_ ho
  · intro i row heq
    cases heq
  · intro r row heq
    cases heq
  · intro row' _ row heq
    cases heq
  · intro row' hrow row heq
    cases heq
    rw [hrow]
    exact h

/-- A transaction that is closed and not suppressed leaves one row for every sub-lock from it
    downwards. -/
theorem heldRowsOf_closeOutputs {top : Txn} {below : TxnStack}
    (hs : ∀ t ∈ top :: below, locks.Backs t)
    (hwritten : ¬ (skipEmpty = true ∧ top.accesses = 0)) :
    ((Output.heldRowsOf top.id (locks.closeOutputs skipEmpty time top below)).map
        HeldRow.lock).Nodup ∧
      ∀ id, id ∈ (Output.heldRowsOf top.id (locks.closeOutputs skipEmpty time top below)).map
          HeldRow.lock ↔
        ∃ t ∈ top :: below, locks.subLockId? t = some id := by
  have hrev : ∀ t ∈ (top :: below).reverse, locks.Backs t := by
    intro t ht
    exact hs t (List.mem_reverse.mp ht)
  obtain ⟨rows, heq, hlists⟩ := locks.heldOutputs_eq top.id time hrev []
  have hrows : Output.heldRowsOf top.id (locks.closeOutputs skipEmpty time top below) = rows := by
    unfold closeOutputs
    rw [if_neg hwritten, heq, ← List.singleton_append,
      Output.heldRowsOf_append, Output.heldRowsOf_map hlists.txn_eq]
    rfl
  rw [hrows]
  refine ⟨hlists.nodup, ?_⟩
  intro id
  rw [hlists.mem_iff]
  constructor
  · rintro ⟨_, t, ht, hsub⟩
    exact ⟨t, List.mem_reverse.mp ht, hsub⟩
  · rintro ⟨t, ht, hsub⟩
    exact ⟨List.not_mem_nil, t, List.mem_reverse.mpr ht, hsub⟩

theorem heldRowsOf_mismatchOutputs (txn : Nat) (top : Txn) :
    Output.heldRowsOf txn (locks.mismatchOutputs key time top) = [] := by
  unfold mismatchOutputs
  split <;> rfl

theorem heldRowsOf_purgeOutputs (txn : Nat) (s : TxnStack) :
    Output.heldRowsOf txn (locks.purgeOutputs key ctx time s) = [] := by
  apply Output.heldRowsOf_eq_nil
  intro o ho
  refine purgeOutputs_forall (P := fun o => ∀ row, o = .record (.held row) → row.txn ≠ txn)
    locks key ctx time ?_ ?_ ho
  · intro i row heq
    cases heq
  · intro r row heq
    cases heq

theorem heldRowsOf_unwindOutputs_of_not_mem {txn : Nat} {s : TxnStack}
    (h : txn ∉ (locks.unwindOutputs skipEmpty key side ctx time purge s).filterMap
      Output.closedId?) :
    Output.heldRowsOf txn (locks.unwindOutputs skipEmpty key side ctx time purge s) = [] := by
  induction s with
  | nil => rfl
  | cons top below ih =>
    rw [unwindOutputs, List.filterMap_append, closedIds_closeOutputs, List.cons_append,
      List.nil_append, List.mem_cons, not_or] at h
    rw [unwindOutputs, Output.heldRowsOf_append,
      heldRowsOf_closeOutputs_of_ne locks skipEmpty time (Ne.symm h.1), List.nil_append]
    split
    · split
      · exact heldRowsOf_purgeOutputs locks key ctx time txn below
      · rfl
    · next hanchor =>
      rw [if_neg hanchor, List.filterMap_append, closedIds_mismatchOutputs,
        List.nil_append] at h
      rw [Output.heldRowsOf_append, heldRowsOf_mismatchOutputs, List.nil_append]
      exact ih h.2

/-- A transaction that does not lie below the one that is closed ends. -/
theorem mem_closedIds_unwindOutputs {above : TxnStack} (t : Txn) (below : TxnStack)
    (hanchor : ¬ above.HasAnchor key side) :
    t.id ∈ (locks.unwindOutputs skipEmpty key side ctx time purge
      (above ++ t :: below)).filterMap Output.closedId? := by
  have hmem : t.id ∈ (locks.closeOutputs skipEmpty time t below).filterMap Output.closedId? := by
    rw [closedIds_closeOutputs]
    exact List.mem_cons_self
  obtain ⟨o, ho, hid⟩ := List.mem_filterMap.mp hmem
  exact List.mem_filterMap.mpr ⟨o, closeOutputs_subset_unwindOutputs locks skipEmpty key side ctx
    time purge t below hanchor ho, hid⟩

/-- The rows that unwinding a stack writes for one of its transactions are those of closing
    this one, as no other one has its number. -/
theorem heldRowsOf_unwindOutputs {above : TxnStack} {t : Txn} {below : TxnStack}
    (hanchor : ¬ above.HasAnchor key side)
    (hnodup : ((locks.unwindOutputs skipEmpty key side ctx time purge
      (above ++ t :: below)).filterMap Output.closedId?).Nodup) :
    Output.heldRowsOf t.id
        (locks.unwindOutputs skipEmpty key side ctx time purge (above ++ t :: below)) =
      Output.heldRowsOf t.id (locks.closeOutputs skipEmpty time t below) := by
  induction above with
  | nil =>
    rw [List.nil_append, unwindOutputs, List.filterMap_append, closedIds_closeOutputs,
      List.cons_append, List.nil_append, List.nodup_cons] at hnodup
    rw [List.nil_append, unwindOutputs, Output.heldRowsOf_append]
    split
    · split
      · rw [heldRowsOf_purgeOutputs, List.append_nil]
      · exact List.append_nil _
    · next htop =>
      rw [if_neg htop, List.filterMap_append, closedIds_mismatchOutputs,
        List.nil_append] at hnodup
      rw [Output.heldRowsOf_append, heldRowsOf_mismatchOutputs, List.nil_append,
        heldRowsOf_unwindOutputs_of_not_mem locks skipEmpty key side ctx time purge hnodup.1,
        List.append_nil]
  | cons top above ih =>
    rw [TxnStack.hasAnchor_cons, not_or] at hanchor
    rw [List.cons_append, unwindOutputs, if_neg hanchor.1, List.filterMap_append,
      closedIds_closeOutputs, List.filterMap_append, closedIds_mismatchOutputs,
      List.nil_append, List.cons_append, List.nil_append, List.nodup_cons] at hnodup
    have htop : top.id ≠ t.id := by
      intro heq
      apply hnodup.1
      rw [heq]
      exact mem_closedIds_unwindOutputs locks skipEmpty key side ctx time purge t below hanchor.2
    rw [List.cons_append, unwindOutputs, if_neg hanchor.1, Output.heldRowsOf_append,
      Output.heldRowsOf_append, heldRowsOf_closeOutputs_of_ne locks skipEmpty time htop,
      heldRowsOf_mismatchOutputs]
    exact ih hanchor.2 hnodup.2

/-- Nothing is reported when a transaction is closed that lies on transactions that are backed,
    and is itself. -/
theorem report_not_mem_closeOutputs {top : Txn} {below : TxnStack}
    (hs : ∀ t ∈ top :: below, locks.Backs t) (i : Inconsistency) :
    Output.report i ∉ locks.closeOutputs skipEmpty time top below := by
  intro h
  unfold closeOutputs at h
  split at h
  · have hremark := List.mem_singleton.mp h
    cases hremark
  · rcases List.mem_cons.mp h with hrow | h
    · cases hrow
    · have hbacked : ∀ t ∈ (top :: below).reverse, locks.Backs t := by
        intro t ht
        exact hs t (List.mem_reverse.mp ht)
      obtain ⟨rows, heq, _⟩ := locks.heldOutputs_eq top.id time hbacked []
      rw [heq] at h
      obtain ⟨row, _, hrow⟩ := List.mem_map.mp h
      cases hrow

/-- Nothing is reported when transactions that are backed are closed, unless one of them holds
    the lock on the other side. -/
theorem report_not_mem_unwindOutputs {s : TxnStack} (hs : ∀ t ∈ s, locks.Backs t)
    (hside : ∀ t ∈ s, t.lock = key → t.side = side) (i : Inconsistency) :
    Output.report i ∉ locks.unwindOutputs skipEmpty key side ctx time false s := by
  induction s with
  | nil => exact List.not_mem_nil
  | cons top below ih =>
    intro h
    rw [unwindOutputs] at h
    rcases List.mem_append.mp h with h | h
    · exact report_not_mem_closeOutputs locks skipEmpty time hs i h
    · split at h
      · cases h
      · next hanchor =>
        have hother : top.lock ≠ key := by
          intro hkey
          exact hanchor ⟨hkey, hside top List.mem_cons_self hkey⟩
        rw [mismatchOutputs, if_neg hother, List.nil_append] at h
        exact ih (fun t ht => hs t (List.mem_cons_of_mem _ ht))
          (fun t ht => hside t (List.mem_cons_of_mem _ ht)) h

/-- Closing the innermost transaction of a stack closes no other. -/
theorem unwindOutputs_cons_self (top : Txn) (below : TxnStack) :
    locks.unwindOutputs skipEmpty top.lock top.side ctx time false (top :: below) =
      locks.closeOutputs skipEmpty time top below := by
  rw [unwindOutputs, if_pos top.anchoredAt_self]
  exact List.append_nil _

end Unwind

end LockStore

namespace Monitor

/-! ### Transactions that have not ended -/

/-- Only a transaction that has ended has rows on what it held. -/
def HeldRowsEnded (m : Monitor) : Prop :=
  ∀ i, i ∉ m.closedIds → Output.heldRowsOf i m.outputs = []

theorem HeldRowsEnded.moves {purging : Bool} {m m' : Monitor} (hm : m.HeldRowsEnded)
    (h : Moves purging m m') : m'.HeldRowsEnded := by
  induction h with
  | refl => exact hm
  | @outputs m' os _ hquiet ih =>
    intro i hi
    rw [closedIds_withOutputs _ hquiet] at hi
    rw [outputs_withOutputs, Output.heldRowsOf_append, ih i hi, List.nil_append]
    apply Output.heldRowsOf_eq_nil
    intro o ho row heq
    have hquiet' := hquiet o ho
    rw [heq] at hquiet'
    exact hquiet'.elim
  | locks locks _ ih => exact ih
  | openTxn key side ctx time _ ih => exact ih
  | @closeTxn m' key side ctx time purge _ _ ih =>
    intro i hi
    unfold closedIds at hi
    rw [outputs_closeTxn, List.filterMap_append, List.mem_append, not_or] at hi
    rw [outputs_closeTxn, Output.heldRowsOf_append, ih i hi.1, List.nil_append]
    exact LockStore.heldRowsOf_unwindOutputs_of_not_mem _ _ _ _ _ _ _ hi.2
  | @access m' ctx row _ _ ih =>
    intro i hi
    have hclosed : i ∉ m'.closedIds := by
      intro hmem
      apply hi
      unfold closedIds
      rw [outputs_write, List.filterMap_append]
      exact List.mem_append_left _ hmem
    rw [outputs_write, Output.heldRowsOf_append]
    exact (congrArg (· ++ []) (ih i hclosed)).trans (List.append_nil _)

theorem HeldRowsEnded.initial (skipEmpty : Bool) : (Monitor.initial skipEmpty).HeldRowsEnded := by
  intro i _
  rfl

end Monitor

end LockTrace
