import LockTrace.Proofs.Unwinding

/-!
# How transactions end

A transaction ends in one of three ways: its row is written, it is suppressed because it had
no accesses, or it is purged when a writer takes the lock away. Each leaves one output that
names it (`Output.closedId?`). What unwinding a stack does is told here for the numbers of the
transactions as a whole (`closedIds_unwindOutputs_perm`) and for one transaction of the stack
(`unwind_fate`).
-/

namespace LockTrace

/-- Nothing but an allocation is damaged. -/
def Inconsistency.AboutHeap : Inconsistency → Prop
  | .duplicateAllocation .. => True
  | .unknownFree .. => True
  | .unknownDataType .. => True
  | _ => False

namespace Output

/-- The number of the transaction that an output ends. -/
def closedId? : Output → Option Nat
  | .record (.txn row) => some row.id
  | .remark (.suppressed id) => some id
  | .remark (.purged id _ _) => some id
  | _ => none

/-- An output that is about no transaction and no access. -/
def Quiet : Output → Prop
  | .record (.txn _) => False
  | .record (.held _) => False
  | .record (.access _) => False
  | .remark (.suppressed _) => False
  | .remark (.purged ..) => False
  | _ => True

/-- An output that is about no lock either. -/
def Plain : Output → Prop
  | .record (.dataType _) => True
  | .record (.allocation _) => True
  | .record .flush => True
  | .report i => i.AboutHeap
  | .remark (.closing _) => True
  | .remark (.stillActive ..) => True
  | _ => False

theorem Plain.quiet {o : Output} (h : o.Plain) : o.Quiet := by
  unfold Plain at h
  split at h
  all_goals first | exact h.elim | trivial

theorem Quiet.closedId?_eq_none {o : Output} (h : o.Quiet) : o.closedId? = none := by
  unfold Quiet at h
  split at h
  all_goals first | exact h.elim | skip
  unfold closedId?
  split
  all_goals simp_all

end Output

/-! ### Closing one transaction -/

namespace LockStore

section CloseOutputs

variable (locks : LockStore) (time : UInt64)

/-- Of the sub-locks held while a transaction ran there are only rows of this transaction and
    reports. -/
theorem heldOutputs_forall {P : Output → Prop} {txn : Nat} (hreport : ∀ i, P (.report i))
    (hheld : ∀ row : HeldRow, row.txn = txn → P (.record (.held row))) {seen : List Nat}
    {s : List Txn} {o : Output} (h : o ∈ locks.heldOutputs txn time seen s) : P o := by
  induction s generalizing seen with
  | nil => cases h
  | cons t ts ih =>
    unfold heldOutputs at h
    split at h
    · rcases List.mem_cons.mp h with rfl | h
      · exact hreport _
      · exact ih h
    · split at h
      · split at h
        · rcases List.mem_cons.mp h with rfl | h
          · exact hreport _
          · exact ih h
        · exact ih h
        · split at h
          · exact ih h
          · rcases List.mem_cons.mp h with rfl | h
            · exact hheld _ rfl
            · exact ih h
      · rcases List.mem_cons.mp h with rfl | h
        · exact hreport _
        · exact ih h

theorem closedId?_of_mem_heldOutputs {txn : Nat} {seen : List Nat} {s : List Txn} {o : Output}
    (h : o ∈ locks.heldOutputs txn time seen s) : o.closedId? = none :=
  heldOutputs_forall (P := fun o => o.closedId? = none) locks time (fun _ => rfl)
    (fun _ _ => rfl) h

theorem closedIds_heldOutputs (txn : Nat) (seen : List Nat) (s : List Txn) :
    (locks.heldOutputs txn time seen s).filterMap Output.closedId? = [] :=
  List.filterMap_eq_nil_iff.mpr fun _ ho => closedId?_of_mem_heldOutputs locks time ho

theorem closedIds_closeOutputs (skipEmpty : Bool) (top : Txn) (below : TxnStack) :
    (locks.closeOutputs skipEmpty time top below).filterMap Output.closedId? = [top.id] := by
  unfold closeOutputs
  split
  · rfl
  · rw [List.filterMap_cons, closedIds_heldOutputs]
    rfl

theorem txn_mem_closeOutputs (skipEmpty : Bool) {top : Txn} (hpos : 0 < top.accesses)
    (below : TxnStack) :
    Output.record (.txn ⟨top.id, top.start, time⟩) ∈
      locks.closeOutputs skipEmpty time top below := by
  unfold closeOutputs
  rw [if_neg (fun hskip => Nat.ne_of_gt hpos hskip.2)]
  exact List.mem_cons_self

theorem closedIds_mismatchOutputs (key : Nat) (top : Txn) :
    (locks.mismatchOutputs key time top).filterMap Output.closedId? = [] := by
  unfold mismatchOutputs
  split <;> rfl

theorem closedIds_purgeOutputs (key : Nat) (ctx : Int64) (s : TxnStack) :
    (locks.purgeOutputs key ctx time s).filterMap Output.closedId? =
      (s.filter (fun t => decide (t.AnchoredAt key .reader))).reverse.map Txn.id := by
  unfold purgeOutputs
  rw [List.filterMap_append, List.filterMap_map, List.filterMap_map]
  have hreports : ∀ ts : List Txn, ts.filterMap (Output.closedId? ∘ fun _ =>
      Output.report (.multipleWriterTxns (locks.describe key .writer) time ctx)) = [] :=
    fun ts => List.filterMap_eq_nil_iff.mpr fun _ _ => rfl
  rw [hreports, List.append_nil, ← List.filterMap_eq_map]
  rfl

end CloseOutputs

/-! ### The numbers of a stack -/

section Unwind

variable (locks : LockStore) (skipEmpty : Bool) (key : Nat) (side : Side) (ctx : Int64)
  (time : UInt64) (purge : Bool)

/-- Unwinding loses no number and uses none twice: those of the transactions that end and of
    those that are open afterwards are those of the stack and the new ones. -/
theorem closedIds_unwindOutputs_perm (next : Nat) (s : TxnStack) :
    ((locks.unwindOutputs skipEmpty key side ctx time purge s).filterMap Output.closedId? ++
      (s.unwound key side time purge next).map Txn.id).Perm
      (s.map Txn.id ++ List.range' next (s.displaced key side)) := by
  induction s generalizing next with
  | nil => exact List.Perm.refl _
  | cons top below ih =>
    rw [unwindOutputs, TxnStack.unwound, TxnStack.displaced, List.filterMap_append,
      closedIds_closeOutputs, List.map_cons]
    split
    · rw [List.range'_zero, List.append_nil]
      split
      · rw [closedIds_purgeOutputs]
        refine List.Perm.cons top.id ?_
        -- the purged transactions and the others make up the rest of the stack
        have hsplit := (List.filter_append_perm
          (fun t : Txn => decide (t.AnchoredAt key .reader)) below).map Txn.id
        rw [List.map_append] at hsplit
        refine List.Perm.trans ?_ hsplit
        refine List.Perm.append ((List.reverse_perm _).map Txn.id) (List.Perm.of_eq ?_)
        unfold TxnStack.dropAnchor
        simp only [decide_not]
      · exact List.Perm.refl _
    · rw [List.filterMap_append, closedIds_mismatchOutputs, List.nil_append, List.map_cons]
      refine List.Perm.cons top.id ?_
      refine List.perm_middle.trans ?_
      rw [List.range'_succ]
      exact ((ih (next + 1)).cons next).trans List.perm_middle.symm

/-- Closing one transaction gives its own row, rows of what it held, reports and remarks. -/
theorem closeOutputs_forall {P : Output → Prop} {top : Txn} {below : TxnStack}
    (hreport : ∀ i, P (.report i)) (hremark : ∀ r, P (.remark r))
    (htxn : ∀ row : TxnRow, row.id = top.id → P (.record (.txn row)))
    (hheld : ∀ row : HeldRow, row.txn = top.id → P (.record (.held row))) {o : Output}
    (h : o ∈ locks.closeOutputs skipEmpty time top below) : P o := by
  unfold closeOutputs at h
  split at h
  · rw [List.mem_singleton.mp h]
    exact hremark _
  · rcases List.mem_cons.mp h with rfl | h
    · exact htxn _ rfl
    · exact heldOutputs_forall locks time hreport hheld h

theorem mismatchOutputs_forall {P : Output → Prop} {top : Txn} (hreport : ∀ i, P (.report i))
    {o : Output} (h : o ∈ locks.mismatchOutputs key time top) : P o := by
  unfold mismatchOutputs at h
  split at h
  · rw [List.mem_singleton.mp h]
    exact hreport _
  · cases h

theorem purgeOutputs_forall {P : Output → Prop} {s : TxnStack} (hreport : ∀ i, P (.report i))
    (hremark : ∀ r, P (.remark r)) {o : Output} (h : o ∈ locks.purgeOutputs key ctx time s) :
    P o := by
  rcases List.mem_append.mp h with h | h
  · obtain ⟨t, _, rfl⟩ := List.mem_map.mp h
    exact hremark _
  · obtain ⟨t, _, rfl⟩ := List.mem_map.mp h
    exact hreport _

/-- Unwinding a stack writes rows on its transactions and on what they held, and no others. -/
theorem unwindOutputs_forall {P : Output → Prop} {s : TxnStack} (hreport : ∀ i, P (.report i))
    (hremark : ∀ r, P (.remark r))
    (htxn : ∀ t ∈ s, ∀ row : TxnRow, row.id = t.id → P (.record (.txn row)))
    (hheld : ∀ t ∈ s, ∀ row : HeldRow, row.txn = t.id → P (.record (.held row))) {o : Output}
    (h : o ∈ locks.unwindOutputs skipEmpty key side ctx time purge s) : P o := by
  induction s with
  | nil => cases h
  | cons top below ih =>
    rw [unwindOutputs] at h
    rcases List.mem_append.mp h with h | h
    · exact closeOutputs_forall locks skipEmpty time hreport hremark (htxn top List.mem_cons_self)
        (hheld top List.mem_cons_self) h
    · split at h
      · split at h
        · exact purgeOutputs_forall locks key ctx time hreport hremark h
        · cases h
      · rcases List.mem_append.mp h with h | h
        · exact mismatchOutputs_forall locks key time hreport h
        · exact ih (fun t ht => htxn t (List.mem_cons_of_mem _ ht))
            (fun t ht => hheld t (List.mem_cons_of_mem _ ht)) h

theorem txn_or_held_of_mem_unwindOutputs {s : TxnStack} {r : Record}
    (h : .record r ∈ locks.unwindOutputs skipEmpty key side ctx time purge s) :
    (∃ row, r = .txn row) ∨ ∃ row, r = .held row := by
  refine unwindOutputs_forall (P := fun o => ∀ r, o = .record r →
    (∃ row, r = .txn row) ∨ ∃ row, r = .held row) locks skipEmpty key side ctx time purge
    ?_ ?_ ?_ ?_ h r rfl
  · rintro i r ⟨⟩
  · rintro i r ⟨⟩
  · rintro t _ row _ r ⟨⟩
    exact Or.inl ⟨row, rfl⟩
  · rintro t _ row _ r ⟨⟩
    exact Or.inr ⟨row, rfl⟩

/-! ### One transaction of a stack -/

/-- An output of unwinding a stack closes a transaction of it, or purges one, or is a report. -/
theorem mem_unwindOutputs {s : TxnStack} {o : Output}
    (h : o ∈ locks.unwindOutputs skipEmpty key side ctx time purge s) :
    (∃ t ∈ s, ∃ below, o ∈ locks.closeOutputs skipEmpty time t below) ∨
      (∃ t ∈ s, o = .remark (.purged t.id ctx time)) ∨ ∃ i, o = .report i := by
  induction s with
  | nil => cases h
  | cons top below ih =>
    rw [unwindOutputs] at h
    rcases List.mem_append.mp h with h | h
    · exact Or.inl ⟨top, List.mem_cons_self, below, h⟩
    · split at h
      · split at h
        · rcases List.mem_append.mp h with h | h
          · obtain ⟨t, ht, rfl⟩ := List.mem_map.mp h
            have hmem := (List.mem_filter.mp (List.mem_reverse.mp ht)).1
            exact Or.inr (Or.inl ⟨t, List.mem_cons_of_mem _ hmem, rfl⟩)
          · obtain ⟨_, _, rfl⟩ := List.mem_map.mp h
            exact Or.inr (Or.inr ⟨_, rfl⟩)
        · cases h
      · rcases List.mem_append.mp h with h | h
        · exact Or.inr (Or.inr (mismatchOutputs_forall (P := fun o => ∃ i, o = .report i) locks key
            time (fun i => ⟨i, rfl⟩) h))
        · rcases ih h with ⟨t, ht, hclosed⟩ | ⟨t, ht, hpurged⟩ | hreport
          · exact Or.inl ⟨t, List.mem_cons_of_mem _ ht, hclosed⟩
          · exact Or.inr (Or.inl ⟨t, List.mem_cons_of_mem _ ht, hpurged⟩)
          · exact Or.inr (Or.inr hreport)

/-- Unless it lies below the transaction that is closed, a transaction of the stack is closed
    itself. -/
theorem closeOutputs_subset_unwindOutputs {above : TxnStack} (t : Txn) (below : TxnStack)
    (h : ¬ above.HasAnchor key side) {o : Output}
    (ho : o ∈ locks.closeOutputs skipEmpty time t below) :
    o ∈ locks.unwindOutputs skipEmpty key side ctx time purge (above ++ t :: below) := by
  induction above with
  | nil => exact List.mem_append_left _ ho
  | cons top above ih =>
    rw [TxnStack.hasAnchor_cons] at h
    have hmem := ih (fun hanchor => h (Or.inr hanchor))
    rw [List.cons_append, unwindOutputs, if_neg (fun hanchor => h (Or.inl hanchor))]
    exact List.mem_append_right _ (List.mem_append_right _ hmem)

/-- What becomes of a transaction of a stack that is unwound: it stays, it is closed, or it is
    purged. -/
theorem unwind_fate (next : Nat) {s : TxnStack} {t : Txn} (ht : t ∈ s) :
    t ∈ s.unwound key side time purge next ∨
    (∃ below, ∀ o ∈ locks.closeOutputs skipEmpty time t below,
      o ∈ locks.unwindOutputs skipEmpty key side ctx time purge s) ∨
    Output.remark (.purged t.id ctx time) ∈
      locks.unwindOutputs skipEmpty key side ctx time purge s := by
  induction s generalizing next with
  | nil => cases ht
  | cons top below ih =>
    rw [TxnStack.unwound, unwindOutputs]
    rcases List.mem_cons.mp ht with rfl | ht
    · exact Or.inr (Or.inl ⟨below, fun o ho => List.mem_append_left _ ho⟩)
    · split
      · cases purge with
        | false => exact Or.inl ht
        | true =>
          simp only [if_true]
          by_cases hreader : t.AnchoredAt key .reader
          · refine Or.inr (Or.inr (List.mem_append_right _ (List.mem_append_left _ ?_)))
            exact List.mem_map.mpr ⟨t, List.mem_reverse.mpr
              (List.mem_filter.mpr ⟨ht, decide_eq_true hreader⟩), rfl⟩
          · exact Or.inl (List.mem_filter.mpr ⟨ht, decide_eq_true hreader⟩)
      · rcases ih (next + 1) ht with hstay | ⟨rest, hclosed⟩ | hpurged
        · exact Or.inl (List.mem_cons_of_mem _ hstay)
        · exact Or.inr (Or.inl ⟨rest, fun o ho =>
            List.mem_append_right _ (List.mem_append_right _ (hclosed o ho))⟩)
        · exact Or.inr (Or.inr (List.mem_append_right _ (List.mem_append_right _ hpurged)))

end Unwind

end LockStore

end LockTrace
