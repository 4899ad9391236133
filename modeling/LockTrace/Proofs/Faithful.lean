import LockTrace.Proofs.Attribution
import LockTrace.Proofs.Ledger
import Mathlib.Data.List.Forall2

/-!
# Rows that say what was held

The rows of the accesses so far agree, one by one, with what a ledger attests
(`Monitor.Faithful`): each repeats its access, and its transaction stands for the sub-locks
that were held. This holds while only parts of stacks are closed whose locks are live and
held, and nothing that is reported is about a lock or a transaction. At the end of a trace the
transactions that are left are closed in the same way (`Faithful.closeAll`), and then the rows
alone tell what was held (`Faithful.told`).
-/

namespace LockTrace

/-- The row is that of the access, with the name of its file cut by `strip`. -/
structure Attested.IsIn (a : Attested) (strip : Site → Site) (row : AccessRow) : Prop where
  time : row.time = a.access.time
  kind : row.kind = a.access.kind
  size : row.size = a.access.size
  address : row.address = a.access.address
  site : row.site = strip a.access.site

namespace Output

def accessRow? : Output → Option AccessRow
  | .record (.access row) => some row
  | _ => none

theorem Plain.lockRow?_eq_none {o : Output} (h : o.Plain) : o.lockRow? = none := by
  cases o with
  | record r =>
    cases r with
    | lock row => exact h.elim
    | _ => rfl
  | report i => rfl
  | remark r => rfl

theorem Quiet.accessRow?_eq_none {o : Output} (h : o.Quiet) : o.accessRow? = none := by
  cases o with
  | record r =>
    cases r with
    | access row => exact h.elim
    | _ => rfl
  | report i => rfl
  | remark r => rfl

end Output

namespace Monitor

def accessTable (m : Monitor) : List AccessRow := m.outputs.filterMap Output.accessRow?

theorem accessTable_of_append {m m' : Monitor} {os : List Output}
    (h : m'.outputs = m.outputs ++ os) :
    m'.accessTable = m.accessTable ++ os.filterMap Output.accessRow? := by
  unfold accessTable
  rw [h, List.filterMap_append]

theorem accessTable_of_quiet {m m' : Monitor} {os : List Output}
    (h : m'.outputs = m.outputs ++ os) (hquiet : ∀ o ∈ os, o.Quiet) :
    m'.accessTable = m.accessTable := by
  rw [accessTable_of_append h, Output.filterMap_eq_nil_of_none, List.append_nil]
  intro o ho
  exact (hquiet o ho).accessRow?_eq_none

theorem accessTable_closeTxn (m : Monitor) (key : Nat) (side : Side) (ctx : Int64) (time : UInt64)
    (purge : Bool) : (m.closeTxn key side ctx time purge).2.accessTable = m.accessTable :=
  m.filterMap_outputs_closeTxn key side ctx time purge (fun _ => rfl) (fun _ => rfl)
    (fun _ => rfl) (fun _ => rfl)

theorem Ready.withOutputs {m : Monitor} (h : m.Ready) {os : List Output}
    (hplain : ∀ o ∈ os, o.Plain) : (m.withOutputs os).Ready := by
  have hquiet : ∀ o ∈ os, o.Quiet := fun o ho => (hplain o ho).quiet
  apply h.of_same (Moves.refl.outputs os hquiet) _ rfl _ h.keyed
  · rw [lockTable_of_append (m.outputs_withOutputs os), Output.filterMap_eq_nil_of_none,
      List.append_nil]
    intro o ho
    exact (hplain o ho).lockRow?_eq_none
  · intro key lock hget
    exact ⟨lock, hget, .refl lock⟩

/-- The rows agree with what was attested, and only the heap was reported on. -/
structure Faithful (strip : Site → Site) (m : Monitor) (kept : List Attested) : Prop where
  ready : m.Ready
  sound : ∀ i, Output.report i ∈ m.outputs → i.AboutHeap
  rows : List.Forall₂ (fun row a => a.IsIn strip row ∧ m.Attributes row.txn a.held)
    m.accessTable kept

namespace Faithful

variable {strip : Site → Site} {m m' : Monitor} {kept : List Attested}

theorem initial (strip : Site → Site) (skipEmpty : Bool) :
    (Monitor.initial skipEmpty).Faithful strip [] where
  ready := .initial skipEmpty
  sound i hi := by cases hi
  rows := .nil

/-- Stacks and anchors stay, and what is added is about the heap or about locks. -/
theorem keep (h : m.Faithful strip kept) (hready : m'.Ready)
    (hstack : ∀ c, m'.stack c = m.stack c)
    (hanchor : ∀ t ∈ m.openTxns, m'.locks.anchor? t = m.locks.anchor? t) {os : List Output}
    (houtputs : m'.outputs = m.outputs ++ os) (hquiet : ∀ o ∈ os, o.Quiet)
    (hsound : ∀ i, Output.report i ∈ os → i.AboutHeap) : m'.Faithful strip kept where
  ready := hready
  sound i hi := by
    rw [houtputs] at hi
    rcases List.mem_append.mp hi with hi | hi
    · exact h.sound i hi
    · exact hsound i hi
  rows := by
    rw [accessTable_of_quiet houtputs hquiet]
    apply h.rows.imp
    intro row a hrow
    exact ⟨hrow.1, hrow.2.keep hstack hanchor houtputs hquiet⟩

theorem withOutputs (h : m.Faithful strip kept) {os : List Output} (hplain : ∀ o ∈ os, o.Plain) :
    (m.withOutputs os).Faithful strip kept := by
  apply h.keep (h.ready.withOutputs hplain) (fun c => rfl) (fun t _ => rfl)
    (m.outputs_withOutputs os) fun o ho => (hplain o ho).quiet
  intro i hi
  exact hplain (.report i) hi

theorem openTxn (h : m.Faithful strip kept) (key : Nat) (side : Side) (ctx : Int64)
    (time : UInt64) : (m.openTxn key side ctx time).Faithful strip kept where
  ready := by
    apply h.ready.of_same (Moves.refl.openTxn key side ctx time) rfl rfl _ h.ready.keyed
    intro k lock hget
    exact ⟨lock, hget, .refl lock⟩
  sound := h.sound
  rows := by
    apply h.rows.imp
    intro row a hrow
    exact ⟨hrow.1, hrow.2.openTxn key side ctx time⟩

theorem closeTxn (h : m.Faithful strip kept) (hbacked : m.Backed) {key : Nat} {side : Side}
    {ctx : Int64} {time : UInt64}
    (hclean : ∀ i, Output.report i ∉
      m.locks.unwindOutputs m.skipEmpty key side ctx time false (m.stack ctx)) :
    (m.closeTxn key side ctx time false).2.Faithful strip kept where
  ready := h.ready.closeTxn key side ctx time false
  sound i hi := by
    rw [outputs_closeTxn] at hi
    rcases List.mem_append.mp hi with hi | hi
    · exact h.sound i hi
    · exact absurd hi (hclean i)
  rows := by
    rw [accessTable_closeTxn]
    apply h.rows.imp
    intro row a hrow
    exact ⟨hrow.1, hrow.2.closeTxn h.ready hbacked key side ctx time⟩

theorem access (h : m.Faithful strip kept) {ctx : Int64} {row : AccessRow} {a : Attested}
    (hrow : row.txn = (m.innermost? ctx).map Txn.id) (hin : a.IsIn strip row)
    (hheld : ((m.stack ctx).map m.locks.anchor?).Perm (a.held.map some)) :
    ((m.countAccess ctx).write (.access row)).Faithful strip (kept ++ [a]) where
  ready := by
    apply h.ready.of_same (Moves.refl.access ctx row hrow) _ rfl _ h.ready.keyed
    · rw [lockTable_of_append (outputs_write _ _)]
      exact List.append_nil _
    · intro k lock hget
      exact ⟨lock, hget, .refl lock⟩
  sound i hi := by
    rw [outputs_write] at hi
    rcases List.mem_append.mp hi with hi | hi
    · exact h.sound i hi
    · have hrecord := List.mem_singleton.mp hi
      cases hrecord
  rows := by
    rw [accessTable_of_append (outputs_write _ _)]
    apply List.rel_append
    · apply h.rows.imp
      intro row' a' hrow'
      exact ⟨hrow'.1, hrow'.2.access ctx row⟩
    · exact .cons ⟨hin, attributes_access ctx row hrow hheld⟩ .nil

/-- At the end the transactions that are left are closed one by one, each the innermost. -/
theorem closeAll (h : m.Faithful strip kept) (hbacked : m.Backed) (time : UInt64) :
    (m.closeAll time).Faithful strip kept := by
  have hboth : (m.closeAll time).Faithful strip kept ∧ (m.closeAll time).Backed := by
    apply closeAll_induction (P := fun m => m.Faithful strip kept ∧ m.Backed)
    · rintro m' count ctx ⟨hm', hbacked'⟩
      refine ⟨?_, hbacked'⟩
      have hplain : ∀ o ∈ [Output.remark (.stillActive count ctx)], o.Plain :=
        List.forall_mem_singleton.mpr trivial
      exact hm'.withOutputs hplain
    · rintro m' ctx top below ⟨hm', hbacked'⟩ hstack
      refine ⟨?_, hbacked'.closeTxn top.lock top.side ctx time⟩
      apply hm'.closeTxn hbacked'
      intro i
      rw [hstack, LockStore.unwindOutputs_cons_self]
      apply LockStore.report_not_mem_closeOutputs
      intro t ht
      exact hbacked' t (mem_openTxns_iff.mpr ⟨ctx, hstack ▸ ht⟩)
    · exact ⟨h, hbacked⟩
  exact hboth.1

end Faithful

/-! ### The end of a trace -/

/-- The tables tell what was held: nothing for an access without a transaction, and otherwise
    what the rows on the transaction name, each sub-lock once. -/
def Tells (m : Monitor) (txn : Option Nat) (held : List (UInt64 × Side)) : Prop :=
  match txn with
  | none => held = []
  | some i =>
    held ≠ [] ∧ m.journal.txnRowIds.count i = 1 ∧ (m.named i).Nodup ∧
      ∀ p, p ∈ m.named i ↔ p ∈ held.map some

/-- With no transaction open, all that is attributed is written. -/
theorem Faithful.told {strip : Site → Site} {m : Monitor} {kept : List Attested}
    (h : m.Faithful strip kept) (hopen : m.openTxns = []) :
    List.Forall₂ (fun row a => a.IsIn strip row ∧ m.Tells row.txn a.held) m.accessTable kept := by
  apply h.rows.imp
  rintro row a ⟨hin, hrow⟩
  refine ⟨hin, ?_⟩
  unfold Attributes at hrow
  unfold Tells
  cases htxn : row.txn with
  | none =>
    rw [htxn] at hrow
    exact hrow
  | some i =>
    rw [htxn] at hrow
    obtain ⟨hne, ⟨ctx, above, t, below, hstack, _⟩ | ⟨hwritten, hnamed⟩⟩ := hrow
    · have ht : t ∈ m.openTxns := mem_openTxns_of_stack hstack List.mem_cons_self
      rw [hopen] at ht
      cases ht
    · exact ⟨hne, h.ready.conserved.nodup_txnRowIds.count.trans (if_pos hwritten), hnamed⟩

end Monitor

end LockTrace
