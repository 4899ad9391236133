import LockTrace.Proofs.AccessRows
import LockTrace.Proofs.LockRows

/-!
# What an access was made under

An access belongs to the innermost transaction of its context, and this one stands for the
sub-locks at which the transactions from it downwards are anchored. That part of the stack
does not change while the transaction is open: whatever is closed below it closes it too
(`OpenWith.closeTxn`). When it is closed, its row is written, as it has an access, and with it
one row for every sub-lock (`named_closeOutputs`); from then on nothing is added to these
(`WrittenWith.of_append`). So an access that was attributed rightly stays so
(`Attributes.closeTxn`, `Attributes.keep`).
-/

namespace LockTrace

/-! ### The lower part of a stack -/

namespace TxnStack

/-- What lies below the transaction that is closed stays as it is. -/
theorem unwound_append {key : Nat} {side : Side} (time : UInt64) (next : Nat) {above : TxnStack}
    (h : above.HasAnchor key side) (below : TxnStack) :
    (above ++ below).unwound key side time false next =
      above.unwound key side time false next ++ below := by
  induction above generalizing next with
  | nil =>
    obtain ⟨t, ht, _⟩ := h
    cases ht
  | cons top above ih =>
    rw [List.cons_append, unwound, unwound]
    by_cases hanchor : top.AnchoredAt key side
    · rw [if_pos hanchor, if_pos hanchor]
      rfl
    · have habove := (hasAnchor_cons.mp h).resolve_left hanchor
      rw [if_neg hanchor, if_neg hanchor, ih (next + 1) habove, List.cons_append]

/-- A transaction that is open after unwinding has the anchor of one that was open before. -/
theorem exists_of_mem_unwound {key : Nat} {side : Side} {time : UInt64} {purge : Bool} {next : Nat}
    {s : TxnStack} {t : Txn} (h : t ∈ s.unwound key side time purge next) :
    ∃ u ∈ s, u.lock = t.lock ∧ u.side = t.side := by
  induction s generalizing next with
  | nil => cases h
  | cons top below ih =>
    rw [unwound] at h
    split at h
    · have hbelow : t ∈ below := by
        split at h
        · exact List.mem_of_mem_filter h
        · exact h
      exact ⟨t, List.mem_cons_of_mem _ hbelow, rfl, rfl⟩
    · rcases List.mem_cons.mp h with rfl | h
      · exact ⟨top, List.mem_cons_self, rfl, rfl⟩
      · obtain ⟨u, hu, hsame⟩ := ih h
        exact ⟨u, List.mem_cons_of_mem _ hu, hsame⟩

end TxnStack

namespace LockStore

/-- The anchors of a stack are those after the closing and the one that was closed. -/
theorem map_anchor?_unwound_perm (locks : LockStore) {key : Nat} {side : Side} {lock : Lock}
    (hget : locks.get? key = some lock) (time : UInt64) (next : Nat) {s : TxnStack}
    (h : s.HasAnchor key side) :
    (s.map locks.anchor?).Perm (some (lock.address, side) ::
      (s.unwound key side time false next).map locks.anchor?) := by
  induction s generalizing next with
  | nil =>
    obtain ⟨t, ht, _⟩ := h
    cases ht
  | cons top below ih =>
    rw [TxnStack.unwound, List.map_cons]
    by_cases hanchor : top.AnchoredAt key side
    · obtain ⟨rfl, rfl⟩ := hanchor
      rw [if_pos top.anchoredAt_self, anchor?_of_get? hget]
      exact List.Perm.refl _
    · have hbelow := (TxnStack.hasAnchor_cons.mp h).resolve_left hanchor
      rw [if_neg hanchor, List.map_cons]
      exact ((ih (next + 1) hbelow).cons _).trans (List.Perm.swap _ _ _)

theorem Backs.of_anchor {locks : LockStore} {t u : Txn} (h : locks.Backs t)
    (hlock : t.lock = u.lock) (hside : t.side = u.side) : locks.Backs u := by
  unfold Backs at h ⊢
  rw [← hlock, ← hside]
  exact h

end LockStore

namespace Monitor

/-! ### Numbers -/

/-- Whatever has a number has its own, and it is used where it was handed out only. -/
structure Ready (m : Monitor) : Prop where
  conserved : m.Conserved
  ended : m.HeldRowsEnded
  numbered : m.Numbered
  keyed : m.locks.Keyed

theorem Ready.initial (skipEmpty : Bool) : (Monitor.initial skipEmpty).Ready where
  conserved := .initial skipEmpty
  ended := .initial skipEmpty
  numbered := .initial skipEmpty
  keyed := .empty

/-- Moves that leave the table of locks and the live locks, but for their states. -/
theorem Ready.of_same {m m' : Monitor} (h : m.Ready) (hmoves : Moves true m m')
    (htable : m'.lockTable = m.lockTable) (hids : m'.locks.subLockIds = m.locks.subLockIds)
    (hlocks : ∀ key lock', m'.locks.get? key = some lock' →
      ∃ lock, m.locks.get? key = some lock ∧ lock.Same lock')
    (hkeyed : m'.locks.Keyed) : m'.Ready where
  conserved := h.conserved.moves hmoves
  ended := h.ended.moves hmoves
  numbered := h.numbered.of_same htable hids hlocks
  keyed := hkeyed

theorem Ready.closeTxn {m : Monitor} (h : m.Ready) (key : Nat) (side : Side) (ctx : Int64)
    (time : UInt64) (purge : Bool) : (m.closeTxn key side ctx time purge).2.Ready := by
  have hlocks := m.locks_closeTxn key side ctx time purge
  apply h.of_same (Moves.refl.closeTxn key side ctx time purge (fun _ => rfl))
  · exact m.lockTable_closeTxn key side ctx time purge
  · rw [hlocks]
  · intro k lock hget
    rw [hlocks] at hget
    exact ⟨lock, hget, .refl lock⟩
  · rw [hlocks]
    exact h.keyed

/-- Whatever is open after a closing has the anchor of a transaction that was open before. -/
theorem exists_of_mem_openTxns_closeTxn {m : Monitor} {key : Nat} {side : Side} {ctx : Int64}
    {time : UInt64} {purge : Bool} {t : Txn}
    (ht : t ∈ (m.closeTxn key side ctx time purge).2.openTxns) :
    ∃ u ∈ m.openTxns, u.lock = t.lock ∧ u.side = t.side := by
  obtain ⟨c, hc⟩ := mem_openTxns_iff.mp ht
  rw [stack_closeTxn] at hc
  split at hc
  · obtain ⟨u, hu, hsame⟩ := TxnStack.exists_of_mem_unwound hc
    exact ⟨u, mem_openTxns_iff.mpr ⟨ctx, hu⟩, hsame⟩
  · exact ⟨t, mem_openTxns_iff.mpr ⟨c, hc⟩, rfl, rfl⟩

def Backed (m : Monitor) : Prop := ∀ t ∈ m.openTxns, m.locks.Backs t

theorem Backed.closeTxn {m : Monitor} (h : m.Backed) (key : Nat) (side : Side) (ctx : Int64)
    (time : UInt64) : (m.closeTxn key side ctx time false).2.Backed := by
  intro t ht
  obtain ⟨u, hu, hlock, hside⟩ := exists_of_mem_openTxns_closeTxn ht
  rw [locks_closeTxn]
  exact (h u hu).of_anchor hlock hside

theorem mem_closedIds_of_mem_txnRowIds {m : Monitor} {i : Nat} (h : i ∈ m.journal.txnRowIds) :
    i ∈ m.closedIds := by
  obtain ⟨row, hrow, rfl⟩ := mem_txnRowIds.mp h
  exact List.mem_filterMap.mpr ⟨_, hrow, rfl⟩

theorem Conserved.not_mem_closedIds {m : Monitor} (h : m.Conserved) {t : Txn}
    (ht : t ∈ m.openTxns) : t.id ∉ m.closedIds := by
  intro hclosed
  have hopen : t.id ∈ m.openIds := List.mem_map_of_mem ht
  exact (List.nodup_append.mp h.nodup).2.2 _ hclosed _ hopen rfl

/-! ### The rows of a transaction that is closed -/

/-- Sub-locks of live locks are the same if they are at the same place. -/
theorem Ready.subLockId?_eq {m : Monitor} (h : m.Ready) {t u : Txn} {id id' : Nat}
    (ht : m.locks.subLockId? t = some id) (hu : m.locks.subLockId? u = some id')
    (hanchor : m.locks.anchor? t = m.locks.anchor? u) : id = id' := by
  obtain ⟨lock, hget, hid⟩ := Option.bind_eq_some_iff.mp ht
  obtain ⟨lock', hget', hid'⟩ := Option.bind_eq_some_iff.mp hu
  rw [LockStore.anchor?_of_get? hget, LockStore.anchor?_of_get? hget'] at hanchor
  have hpair := Prod.mk.inj (Option.some.inj hanchor)
  have hkey := h.keyed.key_unique hget hget' hpair.1
  rw [hkey, hget'] at hget
  cases hget
  rw [hpair.2, hid'] at hid
  exact (Option.some.inj hid).symm

/-- The rows that a transaction leaves name the places of the transactions from it downwards,
    each once, also when they are read later on. -/
theorem Ready.named_closeOutputs {m : Monitor} (h : m.Ready) {t : Txn} {below : TxnStack}
    (hbacks : ∀ u ∈ t :: below, m.locks.Backs u) {skipEmpty : Bool}
    (hwritten : ¬ (skipEmpty = true ∧ t.accesses = 0)) (time : UInt64)
    {place : Nat → Option (UInt64 × Side)}
    (hplace : ∀ id p, m.place? id = some p → place id = some p) :
    ((Output.heldRowsOf t.id (m.locks.closeOutputs skipEmpty time t below)).map
        fun row => place row.lock).Nodup ∧
      ∀ p, p ∈ (Output.heldRowsOf t.id (m.locks.closeOutputs skipEmpty time t below)).map
          (fun row => place row.lock) ↔
        p ∈ (t :: below).map m.locks.anchor? := by
  obtain ⟨hnodup, hmem⟩ := m.locks.heldRowsOf_closeOutputs skipEmpty time hbacks hwritten
  have hmap : (Output.heldRowsOf t.id (m.locks.closeOutputs skipEmpty time t below)).map
      (fun row => place row.lock) =
      ((Output.heldRowsOf t.id (m.locks.closeOutputs skipEmpty time t below)).map
        HeldRow.lock).map place := by
    rw [List.map_map]
    rfl
  -- a number in a row stands for the place of a transaction that is still live
  have hlater : ∀ u id, m.locks.subLockId? u = some id → place id = m.locks.anchor? u := by
    intro u id hsub
    obtain ⟨lock, hget, _⟩ := Option.bind_eq_some_iff.mp hsub
    have hnow := h.numbered.place?_of_subLockId? hsub
    rw [LockStore.anchor?_of_get? hget] at hnow ⊢
    exact hplace id _ hnow
  rw [hmap]
  constructor
  · apply List.Nodup.map_on _ hnodup
    intro id hid id' hid' hsame
    obtain ⟨u, _, hsub⟩ := (hmem id).mp hid
    obtain ⟨u', _, hsub'⟩ := (hmem id').mp hid'
    rw [hlater u id hsub, hlater u' id' hsub'] at hsame
    exact h.subLockId?_eq hsub hsub' hsame
  · intro p
    constructor
    · intro hp
      obtain ⟨id, hid, rfl⟩ := List.mem_map.mp hp
      obtain ⟨u, hu, hsub⟩ := (hmem id).mp hid
      rw [hlater u id hsub]
      exact List.mem_map_of_mem hu
    · intro hp
      obtain ⟨u, hu, rfl⟩ := List.mem_map.mp hp
      obtain ⟨lock, id, hget, _, _, hside⟩ := hbacks u hu
      have hsub := LockStore.subLockId?_of_get? hget hside
      rw [← hlater u id hsub]
      exact List.mem_map_of_mem ((hmem id).mpr ⟨u, hu, hsub⟩)

/-! ### Attribution -/

/-- The transaction `i` is open and has an access, and the sub-locks from it downwards are
    those of `held`. -/
def OpenWith (m : Monitor) (i : Nat) (held : List (UInt64 × Side)) : Prop :=
  ∃ ctx above t below, m.stack ctx = above ++ t :: below ∧ t.id = i ∧ 0 < t.accesses ∧
    ∀ p, p ∈ (t :: below).map m.locks.anchor? ↔ p ∈ held.map some

/-- The transaction `i` has its row, and its rows on held sub-locks name those of `held`, each
    once. -/
def WrittenWith (m : Monitor) (i : Nat) (held : List (UInt64 × Side)) : Prop :=
  i ∈ m.journal.txnRowIds ∧ (m.named i).Nodup ∧ ∀ p, p ∈ m.named i ↔ p ∈ held.map some

/-- The transaction of an access stands for the sub-locks that were held. -/
def Attributes (m : Monitor) (txn : Option Nat) (held : List (UInt64 × Side)) : Prop :=
  match txn with
  | none => held = []
  | some i => held ≠ [] ∧ (m.OpenWith i held ∨ m.WrittenWith i held)

section Attribution

variable {m m' : Monitor} {i : Nat} {held : List (UInt64 × Side)}

/-- What a transaction has left stays as it is, as long as no more rows come that name it. -/
theorem WrittenWith.of_append (h : m.WrittenWith i held) {os : List Output}
    (houtputs : m'.outputs = m.outputs ++ os) (hnone : Output.heldRowsOf i os = []) :
    m'.WrittenWith i held := by
  obtain ⟨hrow, hnodup, hmem⟩ := h
  have hnamed : m'.named i = m.named i := by
    unfold named
    rw [houtputs, Output.heldRowsOf_append, hnone, List.append_nil]
    apply List.map_congr_left
    intro row hheld
    have hplace : m.place? row.lock ∈ m.named i := List.mem_map_of_mem hheld
    obtain ⟨p, _, hp⟩ := List.mem_map.mp ((hmem _).mp hplace)
    rw [← hp]
    exact place?_of_append houtputs hp.symm
  refine ⟨?_, ?_, ?_⟩
  · obtain ⟨row, hmemRow, hid⟩ := mem_txnRowIds.mp hrow
    apply mem_txnRowIds.mpr
    refine ⟨row, ?_, hid⟩
    rw [houtputs]
    exact List.mem_append_left _ hmemRow
  · rw [hnamed]
    exact hnodup
  · rw [hnamed]
    exact hmem

/-- A transaction that is closed leaves the rows of the part of the stack from it downwards. -/
theorem Ready.writtenWith_of_closed (h : m.Ready) (hbacked : m.Backed) {key : Nat} {side : Side}
    {ctx : Int64} (time : UInt64) {above below : TxnStack} {t : Txn}
    (hstack : m.stack ctx = above ++ t :: below) (hanchor : ¬ above.HasAnchor key side)
    (hpos : 0 < t.accesses)
    (hmem : ∀ p, p ∈ (t :: below).map m.locks.anchor? ↔ p ∈ held.map some) :
    (m.closeTxn key side ctx time false).2.WrittenWith t.id held := by
  have houtputs := m.outputs_closeTxn key side ctx time false
  rw [hstack] at houtputs
  have hopen : ∀ u ∈ t :: below, u ∈ m.openTxns := by
    intro u hu
    exact mem_openTxns_of_stack hstack hu
  -- all rows of the transaction are those of its end
  have hrows : Output.heldRowsOf t.id (m.closeTxn key side ctx time false).2.outputs =
      Output.heldRowsOf t.id (m.locks.closeOutputs m.skipEmpty time t below) := by
    have hbefore := h.ended t.id (h.conserved.not_mem_closedIds (hopen t List.mem_cons_self))
    have hafter := (h.closeTxn key side ctx time false).conserved.nodup
    unfold closedIds at hafter
    rw [houtputs, List.filterMap_append] at hafter
    rw [houtputs, Output.heldRowsOf_append, hbefore, List.nil_append]
    apply LockStore.heldRowsOf_unwindOutputs m.locks m.skipEmpty key side ctx time false hanchor
    exact (List.nodup_append.mp (List.nodup_append.mp hafter).1).2.1
  have hwritten : ¬ (m.skipEmpty = true ∧ t.accesses = 0) := fun hskip => Nat.ne_of_gt hpos hskip.2
  have hnamed := h.named_closeOutputs (fun u hu => hbacked u (hopen u hu)) hwritten time
    (fun id p => place?_of_append houtputs)
  refine ⟨?_, ?_, ?_⟩
  · have hwritten := m.locks.txn_mem_closeOutputs time m.skipEmpty hpos below
    apply mem_txnRowIds.mpr
    refine ⟨⟨t.id, t.start, time⟩, ?_, rfl⟩
    rw [houtputs]
    apply List.mem_append_right
    exact LockStore.closeOutputs_subset_unwindOutputs _ _ _ _ _ _ _ t below hanchor hwritten
  · unfold named
    rw [hrows]
    exact hnamed.1
  · intro p
    unfold named
    rw [hrows, hnamed.2 p]
    exact hmem p

/-- A transaction stays open with the same part of the stack below it, or it is closed. -/
theorem OpenWith.closeTxn (h : m.OpenWith i held) (hready : m.Ready) (hbacked : m.Backed)
    (key : Nat) (side : Side) (ctx : Int64) (time : UInt64) :
    (m.closeTxn key side ctx time false).2.OpenWith i held ∨
      (m.closeTxn key side ctx time false).2.WrittenWith i held := by
  obtain ⟨c, above, t, below, hstack, rfl, hpos, hmem⟩ := h
  have hlocks := m.locks_closeTxn key side ctx time false
  by_cases hctx : ctx = c
  · subst hctx
    by_cases hanchor : TxnStack.HasAnchor above key side
    · refine Or.inl ⟨ctx, TxnStack.unwound key side time false m.txnIds.next above, t, below, ?_,
        rfl, hpos, ?_⟩
      · rw [stack_closeTxn, if_pos rfl, hstack]
        exact TxnStack.unwound_append time m.txnIds.next hanchor _
      · rw [hlocks]
        exact hmem
    · exact Or.inr (hready.writtenWith_of_closed hbacked time hstack hanchor hpos hmem)
  · refine Or.inl ⟨c, above, t, below, ?_, rfl, hpos, ?_⟩
    · rw [stack_closeTxn, if_neg hctx]
      exact hstack
    · rw [hlocks]
      exact hmem

theorem WrittenWith.closeTxn (h : m.WrittenWith i held) (hready : m.Ready) (key : Nat)
    (side : Side) (ctx : Int64) (time : UInt64) (purge : Bool) :
    (m.closeTxn key side ctx time purge).2.WrittenWith i held := by
  have houtputs := m.outputs_closeTxn key side ctx time purge
  have hafter := (hready.closeTxn key side ctx time purge).conserved.nodup
  unfold closedIds at hafter
  rw [houtputs, List.filterMap_append] at hafter
  apply h.of_append houtputs
  apply LockStore.heldRowsOf_unwindOutputs_of_not_mem
  intro hagain
  have hbefore := mem_closedIds_of_mem_txnRowIds h.1
  exact (List.nodup_append.mp (List.nodup_append.mp hafter).1).2.2 i hbefore i hagain rfl

variable {txn : Option Nat}

theorem Attributes.closeTxn (h : m.Attributes txn held) (hready : m.Ready) (hbacked : m.Backed)
    (key : Nat) (side : Side) (ctx : Int64) (time : UInt64) :
    (m.closeTxn key side ctx time false).2.Attributes txn held := by
  cases txn with
  | none => exact h
  | some i =>
    obtain ⟨hne, hopen | hwritten⟩ := h
    · exact ⟨hne, hopen.closeTxn hready hbacked key side ctx time⟩
    · exact ⟨hne, Or.inr (hwritten.closeTxn hready key side ctx time false)⟩

/-- Stacks, anchors and the rows on held sub-locks stay. -/
theorem Attributes.keep (h : m.Attributes txn held) (hstack : ∀ c, m'.stack c = m.stack c)
    (hanchor : ∀ t ∈ m.openTxns, m'.locks.anchor? t = m.locks.anchor? t) {os : List Output}
    (houtputs : m'.outputs = m.outputs ++ os) (hquiet : ∀ o ∈ os, o.Quiet) :
    m'.Attributes txn held := by
  cases txn with
  | none => exact h
  | some i =>
    obtain ⟨hne, ⟨c, above, t, below, hc, hid, hpos, hmem⟩ | hwritten⟩ := h
    · refine ⟨hne, Or.inl ⟨c, above, t, below, ?_, hid, hpos, ?_⟩⟩
      · rw [hstack]
        exact hc
      · have hsame : (t :: below).map m'.locks.anchor? = (t :: below).map m.locks.anchor? := by
          apply List.map_congr_left
          intro u hu
          exact hanchor u (mem_openTxns_of_stack hc hu)
        rw [hsame]
        exact hmem
    · refine ⟨hne, Or.inr (hwritten.of_append houtputs ?_)⟩
      apply Output.heldRowsOf_eq_nil
      intro o ho row heq
      have hquiet' := hquiet o ho
      rw [heq] at hquiet'
      exact hquiet'.elim

theorem Attributes.openTxn (h : m.Attributes txn held) (key : Nat) (side : Side) (ctx : Int64)
    (time : UInt64) : (m.openTxn key side ctx time).Attributes txn held := by
  cases txn with
  | none => exact h
  | some i =>
    obtain ⟨hne, ⟨c, above, t, below, hc, hid, hpos, hmem⟩ | hwritten⟩ := h
    · refine ⟨hne, Or.inl ?_⟩
      by_cases hctx : ctx = c
      · refine ⟨c, Txn.opened m.txnIds.next time key side :: above, t, below, ?_, hid, hpos, hmem⟩
        rw [stack_openTxn, if_pos hctx, hctx, hc, List.cons_append]
      · refine ⟨c, above, t, below, ?_, hid, hpos, hmem⟩
        rw [stack_openTxn, if_neg hctx]
        exact hc
    · exact ⟨hne, Or.inr hwritten⟩

section Access

variable (ctx : Int64) (row : AccessRow)

theorem Attributes.access (h : m.Attributes txn held) :
    ((m.countAccess ctx).write (.access row)).Attributes txn held := by
  have hstack := m.stack_access ctx row
  cases txn with
  | none => exact h
  | some i =>
    obtain ⟨hne, ⟨c, above, t, below, hc, hid, hpos, hmem⟩ | hwritten⟩ := h
    · refine ⟨hne, Or.inl ?_⟩
      by_cases hctx : ctx = c
      · subst hctx
        cases above with
        | nil =>
          refine ⟨ctx, [], { t with accesses := t.accesses + 1 }, below, ?_, hid,
            Nat.succ_pos t.accesses, hmem⟩
          rw [hstack, if_pos rfl, hc]
          rfl
        | cons top above =>
          refine ⟨ctx, { top with accesses := top.accesses + 1 } :: above, t, below, ?_, hid, hpos,
            hmem⟩
          rw [hstack, if_pos rfl, hc]
          rfl
      · refine ⟨c, above, t, below, ?_, hid, hpos, hmem⟩
        rw [hstack, if_neg hctx]
        exact hc
    · exact ⟨hne, Or.inr (hwritten.of_append (outputs_write _ _) rfl)⟩

/-- An access is attributed to the innermost transaction, which stands for all of the stack. -/
theorem attributes_access (hrow : row.txn = (m.innermost? ctx).map Txn.id)
    (hheld : ((m.stack ctx).map m.locks.anchor?).Perm (held.map some)) :
    ((m.countAccess ctx).write (.access row)).Attributes row.txn held := by
  have hstack : ((m.countAccess ctx).write (.access row)).stack ctx =
      (m.stack ctx).addAccesses 1 := by
    rw [stack_access, if_pos rfl]
  unfold innermost? at hrow
  rw [hrow]
  cases hs : m.stack ctx with
  | nil =>
    rw [hs] at hheld
    exact List.map_eq_nil_iff.mp (List.Perm.nil_eq hheld).symm
  | cons top below =>
    rw [hs] at hheld hstack
    constructor
    · intro hnil
      rw [hnil] at hheld
      exact List.cons_ne_nil _ _ hheld.eq_nil
    · refine Or.inl ⟨ctx, [], { top with accesses := top.accesses + 1 }, below, hstack, rfl,
        Nat.succ_pos top.accesses, ?_⟩
      intro p
      exact hheld.mem_iff

end Access

end Attribution

end Monitor

end LockTrace
