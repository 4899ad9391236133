import LockTrace.Proofs.Moves

/-!
# The numbers of transactions are conserved

Every number that was handed out belongs to exactly one transaction, and this one is either
open or has ended, once (`Conserved`). Every move keeps it so: a number is handed out when a
transaction opens, and closing a transaction of a stack ends some of the stack and opens as
many as were displaced. When all transactions are closed at the end of a trace, every stack is
empty, so every number has ended.
-/

namespace LockTrace

/-! ### Outputs -/

theorem mem_filterMap_iff_of_inverse {α β : Type} {f : α → Option β} {g : β → α}
    (h : ∀ a b, f a = some b ↔ a = g b) {as : List α} {b : β} :
    b ∈ as.filterMap f ↔ g b ∈ as := by
  simp [List.mem_filterMap, h]

theorem Output.record?_eq_some_iff (o : Output) (r : Record) :
    o.record? = some r ↔ o = .record r := by
  cases o <;> simp [record?]

theorem Output.mem_records_iff {os : List Output} {r : Record} :
    r ∈ os.filterMap record? ↔ .record r ∈ os :=
  mem_filterMap_iff_of_inverse record?_eq_some_iff

theorem Output.filterMap_record?_reports (is : List Inconsistency) :
    (is.map Output.report).filterMap record? = [] := by
  rw [List.filterMap_map]
  exact List.filterMap_eq_nil_iff.mpr fun _ _ => rfl

namespace Monitor

def outputs (m : Monitor) : List Output := m.journal.outputs.toList

theorem outputs_withOutputs (m : Monitor) (os : List Output) :
    (m.withOutputs os).outputs = m.outputs ++ os :=
  Journal.toList_outputs_addAll _ _

theorem outputs_closeTxn (m : Monitor) (key : Nat) (side : Side) (ctx : Int64) (time : UInt64)
    (purge : Bool) :
    (m.closeTxn key side ctx time purge).2.outputs = m.outputs ++
      m.locks.unwindOutputs m.skipEmpty key side ctx time purge (m.stack ctx) := by
  unfold outputs
  rw [journal_closeTxn]
  exact Journal.toList_outputs_addAll _ _

/-- Closing a transaction adds no rows but those on transactions and what they held. -/
theorem filterMap_outputs_closeTxn {α : Type} {f : Output → Option α} (m : Monitor) (key : Nat)
    (side : Side) (ctx : Int64) (time : UInt64) (purge : Bool) (hreport : ∀ i, f (.report i) = none)
    (hremark : ∀ r, f (.remark r) = none) (htxn : ∀ row, f (.record (.txn row)) = none)
    (hheld : ∀ row, f (.record (.held row)) = none) :
    (m.closeTxn key side ctx time purge).2.outputs.filterMap f = m.outputs.filterMap f := by
  have hnone : (m.locks.unwindOutputs m.skipEmpty key side ctx time purge
      (m.stack ctx)).filterMap f = [] := by
    apply List.filterMap_eq_nil_iff.mpr
    intro o ho
    exact LockStore.unwindOutputs_forall (P := fun o => f o = none) _ _ _ _ _ _ _ hreport hremark
      (fun _ _ row _ => htxn row) (fun _ _ row _ => hheld row) ho
  rw [outputs_closeTxn, List.filterMap_append, hnone, List.append_nil]

theorem outputs_write (m : Monitor) (r : Record) :
    (m.write r).outputs = m.outputs ++ [.record r] :=
  Journal.toList_outputs_add _ _

theorem outputs_withLock (m : Monitor) (address : UInt64) (label : String) (kind : LockKind)
    (flags : UInt32) (placement : Placement) :
    (m.withLock address label kind flags placement).outputs = m.outputs ++
      lockRows ((m.locks.newLock address label kind placement).setFlags flags) :=
  Journal.toList_outputs_addAll _ _

theorem outputs_freeRange (m : Monitor) (base size time : UInt64) :
    (m.freeRange base size time).2.outputs =
      m.outputs ++ (m.locks.freeRange base size time).reports.map .report :=
  Journal.toList_outputs_addAll _ _

/-- The numbers of the transactions that have ended, in the order of their ends. -/
def closedIds (m : Monitor) : List Nat := m.outputs.filterMap Output.closedId?

def openIds (m : Monitor) : List Nat := m.openTxns.map Txn.id

/-! ### What the moves do to the numbers -/

theorem closedIds_withOutputs (m : Monitor) {os : List Output} (hquiet : ∀ o ∈ os, o.Quiet) :
    (m.withOutputs os).closedIds = m.closedIds := by
  have hnone : os.filterMap Output.closedId? = [] :=
    List.filterMap_eq_nil_iff.mpr fun o ho => (hquiet o ho).closedId?_eq_none
  unfold closedIds
  rw [outputs_withOutputs, List.filterMap_append, hnone, List.append_nil]

theorem openIds_openTxn_perm (m : Monitor) (key : Nat) (side : Side) (ctx : Int64)
    (time : UInt64) :
    (m.openTxn key side ctx time).openIds.Perm (m.txnIds.next :: m.openIds) :=
  (m.openTxns_openTxn_perm key side ctx time).map Txn.id

/-- What has ended and what is open changes by the numbers that are handed out. -/
theorem closedIds_closeTxn_perm (m : Monitor) (key : Nat) (side : Side) (ctx : Int64)
    (time : UInt64) (purge : Bool) :
    ((m.closeTxn key side ctx time purge).2.closedIds ++
      (m.closeTxn key side ctx time purge).2.openIds).Perm
      (m.closedIds ++ m.openIds ++
        List.range' m.txnIds.next ((m.stack ctx).displaced key side)) := by
  have hopen := (m.openTxns_closeTxn_perm key side ctx time purge).map Txn.id
  have hstack := (m.openTxns_perm ctx).map Txn.id
  have hunwind := m.locks.closedIds_unwindOutputs_perm m.skipEmpty key side ctx time purge
    m.txnIds.next (m.stack ctx)
  rw [List.map_append] at hopen hstack
  unfold closedIds openIds
  rw [outputs_closeTxn, List.filterMap_append, List.append_assoc, List.append_assoc]
  refine List.Perm.append_left _ ?_
  refine (List.Perm.append_left _ hopen).trans ?_
  rw [← List.append_assoc]
  -- the transactions elsewhere are the same before and after
  refine (List.Perm.append_right _ hunwind).trans ?_
  refine List.Perm.trans ?_ (List.Perm.append_right _ hstack.symm)
  rw [List.append_assoc, List.append_assoc]
  exact List.Perm.append_left _ List.perm_append_comm

theorem openIds_countAccess_perm (m : Monitor) (ctx : Int64) :
    (m.countAccess ctx).openIds.Perm m.openIds := by
  have hstack : ((m.stack ctx).addAccesses 1).map Txn.id = (m.stack ctx).map Txn.id := by
    cases m.stack ctx <;> rfl
  have hopen := (m.openTxns_setStack_perm ctx ((m.stack ctx).addAccesses 1)).map Txn.id
  have hbefore := (m.openTxns_perm ctx).map Txn.id
  rw [List.map_append, hstack, ← List.map_append] at hopen
  exact hopen.trans hbefore.symm

/-! ### Conservation -/

/-- The numbers handed out so far are those of the transactions that have ended and of those
    that are open, each of them once. -/
structure Conserved (m : Monitor) : Prop where
  pos : 0 < m.txnIds.next
  perm : (m.closedIds ++ m.openIds).Perm (List.range' 1 m.txnIds.issued)

theorem Conserved.initial (skipEmpty : Bool) : (Monitor.initial skipEmpty).Conserved where
  pos := Nat.one_pos
  perm := List.Perm.refl _

theorem issued_advance {c : Counter} (h : 0 < c.next) (n : Nat) :
    List.range' 1 (Counter.mk (c.next + n)).issued =
      List.range' 1 c.issued ++ List.range' c.next n := by
  have hstart : c.next = 1 + c.issued := by
    unfold Counter.issued
    omega
  have hlength : (Counter.mk (c.next + n)).issued = c.issued + n := by
    unfold Counter.issued
    simp only
    omega
  rw [hlength, hstart, ← List.range'_append_1]

theorem Conserved.moves {purging : Bool} {m m' : Monitor} (hm : m.Conserved)
    (h : Moves purging m m') : m'.Conserved := by
  induction h with
  | refl => exact hm
  | outputs os _ hquiet ih =>
    refine ⟨ih.pos, ?_⟩
    rw [closedIds_withOutputs _ hquiet]
    exact ih.perm
  | locks locks _ ih => exact ⟨ih.pos, ih.perm⟩
  | @openTxn m' key side ctx time _ ih =>
    refine ⟨Nat.succ_pos _, ?_⟩
    have hids : List.range' 1 (m'.openTxn key side ctx time).txnIds.issued =
        List.range' 1 m'.txnIds.issued ++ [m'.txnIds.next] := issued_advance ih.pos 1
    rw [hids]
    refine (List.Perm.append_left _ (m'.openIds_openTxn_perm key side ctx time)).trans ?_
    exact (List.perm_middle.trans (ih.perm.cons _)).trans
      (List.perm_append_singleton _ _).symm
  | @closeTxn m' key side ctx time purge _ hpurge ih =>
    have hnext := m'.next_closeTxn key side ctx time purge
    have hids : List.range' 1 (m'.closeTxn key side ctx time purge).2.txnIds.issued =
        List.range' 1 m'.txnIds.issued ++
          List.range' m'.txnIds.next ((m'.stack ctx).displaced key side) := by
      rw [← issued_advance ih.pos, ← hnext]
    refine ⟨?_, ?_⟩
    · have hpos := ih.pos
      omega
    · rw [hids]
      exact (m'.closedIds_closeTxn_perm key side ctx time purge).trans
        (List.Perm.append_right _ ih.perm)
  | @access m' ctx row _ hrow ih =>
    refine ⟨ih.pos, ?_⟩
    have hclosed : ((m'.countAccess ctx).write (.access row)).closedIds = m'.closedIds := by
      unfold closedIds
      rw [outputs_write, List.filterMap_append]
      exact List.append_nil _
    rw [hclosed]
    exact (List.Perm.append_left _ (m'.openIds_countAccess_perm ctx)).trans ih.perm

/-- No number ends twice, and none ends that is still open. -/
theorem Conserved.nodup {m : Monitor} (h : m.Conserved) : (m.closedIds ++ m.openIds).Nodup :=
  h.perm.symm.nodup List.nodup_range'

/-- Every number that is in use was handed out. -/
theorem Conserved.lt_next {m : Monitor} (h : m.Conserved) {i : Nat}
    (hi : i ∈ m.closedIds ∨ i ∈ m.openIds) : i < m.txnIds.next := by
  have hlt := (List.mem_range'_1.mp (h.perm.subset (List.mem_append.mpr hi))).2
  have hpos := h.pos
  unfold Counter.issued at hlt
  omega

/-- What is still to be handed out was never used. -/
theorem Conserved.unused_of_le {m : Monitor} (h : m.Conserved) {i : Nat} (hi : m.txnIds.next ≤ i) :
    i ∉ m.openIds ∧ i ∉ m.closedIds := by
  constructor
  · exact fun hopen => Nat.not_lt_of_le hi (h.lt_next (Or.inr hopen))
  · exact fun hclosed => Nat.not_lt_of_le hi (h.lt_next (Or.inl hclosed))

/-! ### The end of a trace -/

/-- A round closes the innermost transaction of the context and no other. -/
theorem stack_closeContext (ctx : Int64) (time : UInt64) (rounds : Nat) {m : Monitor}
    (hrounds : (m.stack ctx).length ≤ rounds) (c : Int64) :
    (closeContext ctx time rounds m).stack c = if ctx = c then [] else m.stack c := by
  induction rounds generalizing m with
  | zero =>
    have hempty : m.stack ctx = [] := List.eq_nil_of_length_eq_zero (Nat.le_zero.mp hrounds)
    unfold closeContext
    split
    · next hc => rw [← hc, hempty]
    · rfl
  | succ rounds ih =>
    unfold closeContext
    split
    · next hempty =>
      split
      · next hc => rw [← hc, hempty]
      · rfl
    · next top below hstack =>
      have hclose : ∀ c', ((m.remark (.stillActive (below.length + 1) ctx)).closeTxn top.lock
          top.side ctx time false).2.stack c' = if ctx = c' then below else m.stack c' := by
        intro c'
        have hsame : (m.remark (.stillActive (below.length + 1) ctx)).stack ctx =
            top :: below := hstack
        rw [stack_closeTxn, hsame, TxnStack.unwound_cons_self]
        rfl
      rw [hstack, List.length_cons] at hrounds
      rw [ih (by rw [hclose, if_pos rfl]; omega), hclose]
      split <;> rfl

theorem stack_closeAll (m : Monitor) (time : UInt64) (c : Int64) :
    (m.closeAll time).stack c = [] := by
  have hall : ∀ (ctxs : List Int64) (m : Monitor),
      (ctxs.foldl (fun m ctx => closeContext ctx time (m.stack ctx).length m) m).stack c =
        if c ∈ ctxs then [] else m.stack c := by
    intro ctxs
    induction ctxs with
    | nil => exact fun _ => rfl
    | cons ctx ctxs ih =>
      intro m
      rw [List.foldl_cons, ih, stack_closeContext ctx time _ (Nat.le_refl _)]
      by_cases hc : ctx = c
      · subst hc
        simp
      · have hc' : c ≠ ctx := Ne.symm hc
        simp [hc, hc']
  unfold closeAll
  rw [hall]
  split
  · rfl
  · next hc =>
    apply Decidable.byContradiction
    intro hne
    exact hc (AscMap.mem_keys_iff.mpr ⟨_, get?_running_of_ne_nil hne⟩)

theorem openTxns_closeAll (m : Monitor) (time : UInt64) : (m.closeAll time).openTxns = [] := by
  apply List.eq_nil_iff_forall_not_mem.mpr
  intro t ht
  obtain ⟨c, hc⟩ := mem_openTxns_iff.mp ht
  rw [stack_closeAll] at hc
  cases hc

end Monitor

theorem Session.openTxns_finish (s : Session) : s.finish.monitor.openTxns = [] :=
  Monitor.openTxns_closeAll _ _

end LockTrace
