import LockTrace.Proofs.Conservation

/-!
# The rows on transactions

What unwinding a stack writes and what it leaves: of the transactions that it closes
(`TxnStack.closed`) each has a row that stops at the time of the unwinding, unless it is
suppressed, and those that are opened again start at that time.
-/

namespace LockTrace

/-- The row of a transaction that is closed. -/
def Txn.row (t : Txn) (stop : UInt64) : TxnRow := ⟨t.id, t.start, stop⟩

namespace TxnStack

/-- The innermost transaction that is anchored at a sub-lock, and those above it. -/
def closed (key : Nat) (side : Side) : TxnStack → TxnStack
  | [] => []
  | top :: below => top :: if top.AnchoredAt key side then [] else closed key side below

theorem closed_subset (key : Nat) (side : Side) (s : TxnStack) : s.closed key side ⊆ s := by
  induction s with
  | nil => exact List.Subset.refl _
  | cons top below ih =>
    rw [closed]
    split
    · simp
    · exact List.cons_subset_cons top ih

/-- What is on a stack that was unwound was there before, or has a new number. -/
theorem mem_unwound {key : Nat} {side : Side} {time : UInt64} {purge : Bool} {next : Nat}
    {s : TxnStack} {t : Txn} (h : t ∈ s.unwound key side time purge next) :
    t ∈ s ∨
      (next ≤ t.id ∧ t.id < next + s.displaced key side ∧ t.start = time ∧ t.accesses = 0) := by
  induction s generalizing next with
  | nil => cases h
  | cons top below ih =>
    rw [unwound] at h
    rw [displaced]
    split at h
    · split at h
      · exact Or.inl (List.mem_cons_of_mem _ (List.mem_filter.mp h).1)
      · exact Or.inl (List.mem_cons_of_mem _ h)
    · next hanchor =>
      rw [if_neg hanchor]
      rcases List.mem_cons.mp h with rfl | h
      · exact Or.inr ⟨Nat.le_refl _, Nat.lt_add_of_pos_right (Nat.succ_pos _), rfl, rfl⟩
      · rcases ih h with h | ⟨hle, hlt, hnew⟩
        · exact Or.inl (List.mem_cons_of_mem _ h)
        · exact Or.inr ⟨by omega, by omega, hnew⟩

end TxnStack

namespace Output

def txnRow? : Output → Option TxnRow
  | .record (.txn row) => some row
  | _ => none

theorem eq_of_txnRow? {o : Output} {row : TxnRow} (h : o.txnRow? = some row) :
    o = .record (.txn row) := by
  unfold txnRow? at h
  split at h
  · cases h
    rfl
  · cases h

theorem Quiet.txnRow?_eq_none {o : Output} (h : o.Quiet) : o.txnRow? = none := by
  cases o with
  | record r =>
    cases r with
    | txn row => exact h.elim
    | _ => rfl
  | report i => rfl
  | remark r => rfl

end Output

namespace LockStore

section Close

variable {locks : LockStore} {skipEmpty : Bool} {time : UInt64}

theorem written_of_mem_closeOutputs {row : TxnRow} {top : Txn} {below : TxnStack}
    (h : Output.record (.txn row) ∈ locks.closeOutputs skipEmpty time top below) :
    row = top.row time ∧ (skipEmpty = true → 0 < top.accesses) := by
  unfold closeOutputs at h
  split at h
  · cases List.mem_singleton.mp h
  · next hskip =>
    rcases List.mem_cons.mp h with hrow | hheld
    · cases hrow
      exact ⟨rfl, fun hempty => Nat.pos_of_ne_zero fun hzero => hskip ⟨hempty, hzero⟩⟩
    · exact (heldOutputs_forall (P := (· ≠ .record (.txn row))) locks time (fun _ => by simp)
        (fun _ _ => by simp) hheld rfl).elim

theorem written_of_mem_unwindOutputs {key : Nat} {side : Side} {ctx : Int64} {purge : Bool}
    {s : TxnStack} {row : TxnRow}
    (h : Output.record (.txn row) ∈ locks.unwindOutputs skipEmpty key side ctx time purge s) :
    ∃ t ∈ s.closed key side, row = t.row time ∧ (skipEmpty = true → 0 < t.accesses) := by
  induction s with
  | nil => cases h
  | cons top below ih =>
    rw [unwindOutputs] at h
    rw [TxnStack.closed]
    rcases List.mem_append.mp h with h | h
    · exact ⟨top, List.mem_cons_self, written_of_mem_closeOutputs h⟩
    · split at h
      · split at h
        · exact absurd rfl (purgeOutputs_forall (P := (· ≠ .record (.txn row))) locks key ctx time
            (by simp) (by simp) h)
        · cases h
      · next hanchor =>
        rcases List.mem_append.mp h with h | h
        · exact absurd rfl (mismatchOutputs_forall (P := (· ≠ .record (.txn row))) locks key time
            (by simp) h)
        · obtain ⟨t, ht, hrow⟩ := ih h
          rw [if_neg hanchor]
          exact ⟨t, List.mem_cons_of_mem _ ht, hrow⟩

end Close

section Unwind

variable (locks : LockStore) (key : Nat) (side : Side) (ctx : Int64) (time : UInt64)

theorem txnRows_closeOutputs (top : Txn) (below : TxnStack) :
    (locks.closeOutputs false time top below).filterMap Output.txnRow? = [top.row time] := by
  have hheld : (locks.heldOutputs top.id time [] (top :: below).reverse).filterMap
      Output.txnRow? = [] := by
    apply List.filterMap_eq_nil_iff.mpr
    intro o ho
    exact heldOutputs_forall (P := fun o => o.txnRow? = none) locks time (fun _ => rfl)
      (fun _ _ => rfl) ho
  unfold closeOutputs
  rw [if_neg (by simp), List.filterMap_cons, hheld]
  rfl

theorem txnRows_mismatchOutputs (top : Txn) :
    (locks.mismatchOutputs key time top).filterMap Output.txnRow? = [] := by
  unfold mismatchOutputs
  split <;> rfl

/-- If nothing is suppressed, whatever is closed is written. -/
theorem txnRows_unwindOutputs (s : TxnStack) :
    (locks.unwindOutputs false key side ctx time false s).filterMap Output.txnRow? =
      (s.closed key side).map (·.row time) := by
  induction s with
  | nil => rfl
  | cons top below ih =>
    rw [unwindOutputs, TxnStack.closed, List.filterMap_append, txnRows_closeOutputs]
    split
    · rfl
    · rw [List.filterMap_append, txnRows_mismatchOutputs, ih]
      rfl

end Unwind

end LockStore

namespace Monitor

def txnTable (m : Monitor) : List TxnRow := m.outputs.filterMap Output.txnRow?

theorem txnTable_of_append {m m' : Monitor} {os : List Output} (h : m'.outputs = m.outputs ++ os) :
    m'.txnTable = m.txnTable ++ os.filterMap Output.txnRow? := by
  unfold txnTable
  rw [h, List.filterMap_append]

theorem txnTable_closeTxn {m : Monitor} (hfull : m.skipEmpty = false) (key : Nat) (side : Side)
    (ctx : Int64) (time : UInt64) :
    (m.closeTxn key side ctx time false).2.txnTable =
      m.txnTable ++ ((m.stack ctx).closed key side).map (·.row time) := by
  rw [txnTable_of_append (m.outputs_closeTxn key side ctx time false), hfull,
    LockStore.txnRows_unwindOutputs]

theorem txnTable_of_quiet {m m' : Monitor} {os : List Output} (h : m'.outputs = m.outputs ++ os)
    (hquiet : ∀ o ∈ os, o.Quiet) : m'.txnTable = m.txnTable := by
  have hnone : os.filterMap Output.txnRow? = [] :=
    List.filterMap_eq_nil_iff.mpr fun o ho => (hquiet o ho).txnRow?_eq_none
  rw [txnTable_of_append h, hnone, List.append_nil]

end Monitor

end LockTrace
