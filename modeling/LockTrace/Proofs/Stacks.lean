import LockTrace.Monitor.Basic
import LockTrace.Proofs.AscMap

/-!
# The open transactions of all contexts

The stacks of a monitor are looked at in two ways: as the stack of one context, and as the
open transactions of all contexts together. Replacing one stack changes the second view in
one place only: the open transactions are those of the context and those elsewhere
(`openTxns_perm`), and elsewhere nothing changes (`openTxns_setStack_perm`).
-/

namespace LockTrace

/-! ### Anchors on one stack -/

theorem Txn.anchoredAt_self (t : Txn) : t.AnchoredAt t.lock t.side := ⟨rfl, rfl⟩

namespace TxnStack

@[simp] theorem countAnchored_nil (key : Nat) (side : Side) : countAnchored [] key side = 0 := rfl

theorem countAnchored_cons (t : Txn) (s : TxnStack) (key : Nat) (side : Side) :
    countAnchored (t :: s) key side =
      countAnchored s key side + if t.AnchoredAt key side then 1 else 0 := by
  simp [countAnchored, List.countP_cons]

@[simp] theorem countAnchored_append (s u : TxnStack) (key : Nat) (side : Side) :
    countAnchored (s ++ u) key side = countAnchored s key side + countAnchored u key side :=
  List.countP_append

theorem countAnchored_perm {s u : TxnStack} (h : s.Perm u) (key : Nat) (side : Side) :
    countAnchored s key side = countAnchored u key side :=
  h.countP_eq _

theorem countAnchored_pos_iff {s : TxnStack} {key : Nat} {side : Side} :
    0 < countAnchored s key side ↔ HasAnchor s key side := by
  simp [countAnchored, HasAnchor]

theorem countAnchored_eq_zero_iff {s : TxnStack} {key : Nat} {side : Side} :
    countAnchored s key side = 0 ↔ ¬ HasAnchor s key side := by
  rw [← countAnchored_pos_iff]
  omega

theorem hasAnchor_cons {t : Txn} {s : TxnStack} {key : Nat} {side : Side} :
    HasAnchor (t :: s) key side ↔ t.AnchoredAt key side ∨ HasAnchor s key side := by
  simp [HasAnchor]

theorem countAnchored_dropAnchor (s : TxnStack) (key key' : Nat) (side side' : Side) :
    countAnchored (s.dropAnchor key side) key' side' =
      if key = key' ∧ side = side' then 0 else countAnchored s key' side' := by
  unfold countAnchored dropAnchor
  rw [List.countP_filter]
  split
  · next h =>
    obtain ⟨rfl, rfl⟩ := h
    simp
  · next h =>
    apply List.countP_congr
    intro t _
    simp only [Bool.and_eq_true, decide_eq_true_eq]
    constructor
    · exact fun hboth => hboth.1
    · intro hanchor
      exact ⟨hanchor, fun hother =>
        h ⟨hother.1.symm.trans hanchor.1, hother.2.symm.trans hanchor.2⟩⟩

@[simp] theorem countAnchored_addAccesses (s : TxnStack) (n key : Nat) (side : Side) :
    countAnchored (s.addAccesses n) key side = countAnchored s key side := by
  cases s with
  | nil => rfl
  | cons top below =>
    rw [addAccesses, countAnchored_cons, countAnchored_cons]
    rfl

end TxnStack

namespace Monitor

/-! ### The stack of one context -/

theorem get?_running_setStack (m : Monitor) (ctx c : Int64) (s : TxnStack) :
    (m.setStack ctx s).running.get? c =
      if ctx = c then (if s = [] then none else some s) else m.running.get? c := by
  unfold setStack
  cases s with
  | nil => simp [AscMap.get?_erase]
  | cons t s => simp [AscMap.get?_insert]

@[simp] theorem stack_setStack (m : Monitor) (ctx c : Int64) (s : TxnStack) :
    (m.setStack ctx s).stack c = if ctx = c then s else m.stack c := by
  unfold stack
  rw [get?_running_setStack]
  split
  · cases s <;> simp
  · rfl

/-- A context with an open transaction has an entry. -/
theorem get?_running_of_ne_nil {m : Monitor} {ctx : Int64} (h : m.stack ctx ≠ []) :
    m.running.get? ctx = some (m.stack ctx) := by
  unfold stack at h ⊢
  cases hget : m.running.get? ctx with
  | some s => rfl
  | none =>
    rw [hget] at h
    exact absurd rfl h

def NoEmptyStack (m : Monitor) : Prop := ∀ ctx s, m.running.get? ctx = some s → s ≠ []

theorem NoEmptyStack.setStack {m : Monitor} (h : m.NoEmptyStack) (ctx : Int64) (s : TxnStack) :
    (m.setStack ctx s).NoEmptyStack := by
  intro c u hu
  rw [get?_running_setStack] at hu
  split at hu
  · split at hu
    · cases hu
    · next hne =>
      cases hu
      exact hne
  · exact h c u hu

/-! ### All open transactions -/

/-- The open transactions of all contexts. -/
def openTxns (m : Monitor) : List Txn := m.running.values.flatten

/-- The open transactions of the other contexts. -/
def elsewhere (m : Monitor) (ctx : Int64) : List Txn := (m.running.erase ctx).values.flatten

theorem countAnchored_eq (m : Monitor) (key : Nat) (side : Side) :
    m.countAnchored key side = TxnStack.countAnchored m.openTxns key side := rfl

theorem openTxns_perm (m : Monitor) (ctx : Int64) :
    m.openTxns.Perm (m.stack ctx ++ m.elsewhere ctx) := by
  unfold openTxns elsewhere stack AscMap.values
  cases h : m.running.get? ctx with
  | none =>
    rw [AscMap.erase_eq_self h]
    exact List.Perm.refl _
  | some s =>
    have hperm := (AscMap.perm_cons_erase h).map Prod.snd
    exact hperm.flatten

theorem openTxns_setStack_perm (m : Monitor) (ctx : Int64) (s : TxnStack) :
    (m.setStack ctx s).openTxns.Perm (s ++ m.elsewhere ctx) := by
  unfold openTxns elsewhere setStack AscMap.values
  cases s with
  | nil => exact List.Perm.refl _
  | cons t s =>
    have hperm := (m.running.insert_perm ctx (t :: s)).map Prod.snd
    exact hperm.flatten

theorem mem_openTxns_iff {m : Monitor} {t : Txn} :
    t ∈ m.openTxns ↔ ∃ ctx, t ∈ m.stack ctx := by
  unfold openTxns stack
  rw [List.mem_flatten]
  constructor
  · rintro ⟨s, hs, ht⟩
    obtain ⟨ctx, hctx⟩ := AscMap.mem_values_iff.mp hs
    exact ⟨ctx, by rw [hctx]; exact ht⟩
  · rintro ⟨ctx, ht⟩
    cases h : m.running.get? ctx with
    | none => simp [h] at ht
    | some s => exact ⟨s, AscMap.mem_values_iff.mpr ⟨ctx, h⟩, by simpa [h] using ht⟩

theorem exists_of_mem_elsewhere {m : Monitor} {ctx : Int64} {t : Txn} (h : t ∈ m.elsewhere ctx) :
    ∃ c, c ≠ ctx ∧ t ∈ m.stack c := by
  obtain ⟨s, hs, ht⟩ := List.mem_flatten.mp h
  obtain ⟨c, hc⟩ := AscMap.mem_values_iff.mp hs
  rw [AscMap.get?_erase] at hc
  split at hc
  · cases hc
  · next hne =>
    refine ⟨c, Ne.symm hne, ?_⟩
    unfold stack
    rw [hc]
    exact ht

theorem mem_openTxns_of_stack {m : Monitor} {ctx : Int64} {above s : TxnStack}
    (h : m.stack ctx = above ++ s) {t : Txn} (ht : t ∈ s) : t ∈ m.openTxns := by
  apply mem_openTxns_iff.mpr
  refine ⟨ctx, ?_⟩
  rw [h]
  exact List.mem_append_right _ ht

theorem countAnchored_split (m : Monitor) (ctx : Int64) (key : Nat) (side : Side) :
    m.countAnchored key side =
      (m.stack ctx).countAnchored key side + TxnStack.countAnchored (m.elsewhere ctx) key side := by
  rw [countAnchored_eq, TxnStack.countAnchored_perm (m.openTxns_perm ctx),
    TxnStack.countAnchored_append]

theorem countAnchored_setStack (m : Monitor) (ctx : Int64) (s : TxnStack) (key : Nat)
    (side : Side) :
    (m.setStack ctx s).countAnchored key side =
      s.countAnchored key side + TxnStack.countAnchored (m.elsewhere ctx) key side := by
  rw [countAnchored_eq, TxnStack.countAnchored_perm (m.openTxns_setStack_perm ctx s),
    TxnStack.countAnchored_append]

theorem countAnchored_stack_le (m : Monitor) (ctx : Int64) (key : Nat) (side : Side) :
    (m.stack ctx).countAnchored key side ≤ m.countAnchored key side := by
  rw [m.countAnchored_split ctx]
  exact Nat.le_add_right _ _

/-! ### Opening a transaction and counting an access -/

section Opening

variable (m : Monitor) (key : Nat) (side : Side) (ctx : Int64) (time : UInt64)

theorem stack_openTxn (c : Int64) :
    (m.openTxn key side ctx time).stack c =
      if ctx = c then Txn.opened m.txnIds.next time key side :: m.stack ctx else m.stack c :=
  stack_setStack _ _ _ _

theorem openTxns_openTxn_perm :
    (m.openTxn key side ctx time).openTxns.Perm
      (Txn.opened m.txnIds.next time key side :: m.openTxns) :=
  (openTxns_setStack_perm _ ctx _).trans ((m.openTxns_perm ctx).symm.cons _)

theorem countAnchored_openTxn (k : Nat) (sd : Side) :
    (m.openTxn key side ctx time).countAnchored k sd =
      m.countAnchored k sd + if key = k ∧ side = sd then 1 else 0 := by
  rw [countAnchored_eq, TxnStack.countAnchored_perm (m.openTxns_openTxn_perm key side ctx time),
    TxnStack.countAnchored_cons]
  rfl

theorem NoEmptyStack.openTxn {m : Monitor} (h : m.NoEmptyStack) :
    (m.openTxn key side ctx time).NoEmptyStack :=
  NoEmptyStack.setStack (m := { m with txnIds := _, stats := _ }) h _ _

theorem stack_countAccess (c : Int64) :
    (m.countAccess ctx).stack c = if ctx = c then (m.stack ctx).addAccesses 1 else m.stack c :=
  stack_setStack _ _ _ _

/-- The row of an access changes no stack. -/
theorem stack_access (row : AccessRow) (c : Int64) :
    ((m.countAccess ctx).write (.access row)).stack c =
      if ctx = c then (m.stack ctx).addAccesses 1 else m.stack c :=
  m.stack_countAccess ctx c

@[simp] theorem countAnchored_countAccess (k : Nat) (sd : Side) :
    (m.countAccess ctx).countAnchored k sd = m.countAnchored k sd := by
  unfold countAccess
  rw [countAnchored_setStack, TxnStack.countAnchored_addAccesses, m.countAnchored_split ctx]

end Opening

/-! ### Finding a transaction -/

theorem hasAnchor_of_holder? {m : Monitor} {key : Nat} {side : Side} {ctx owner : Int64}
    (h : m.holder? key side ctx = some owner) : (m.stack owner).HasAnchor key side := by
  unfold holder? at h
  split at h
  · next hown =>
    cases h
    exact hown
  · obtain ⟨e, he, rfl⟩ := Option.map_eq_some_iff.mp h
    have hanchor := List.find?_some he
    have hentry := AscMap.mem_entries_iff.mp (List.mem_of_find?_eq_some he)
    simpa [stack, hentry] using hanchor

theorem holder?_eq_none_iff {m : Monitor} {key : Nat} {side : Side} {ctx : Int64} :
    m.holder? key side ctx = none ↔ m.countAnchored key side = 0 := by
  rw [countAnchored_eq, TxnStack.countAnchored_eq_zero_iff]
  constructor
  · rintro hnone ⟨t, ht, hanchor⟩
    obtain ⟨c, hc⟩ := mem_openTxns_iff.mp ht
    unfold holder? at hnone
    split at hnone
    · cases hnone
    · simp only [Option.map_eq_none_iff, List.find?_eq_none, decide_eq_true_eq] at hnone
      have hget := get?_running_of_ne_nil (List.ne_nil_of_mem hc)
      exact hnone (c, m.stack c) (AscMap.mem_entries_iff.mpr hget) ⟨t, hc, hanchor⟩
  · intro hnone
    cases hsome : m.holder? key side ctx with
    | none => rfl
    | some owner =>
      obtain ⟨t, ht, hanchor⟩ := hasAnchor_of_holder? hsome
      exact absurd ⟨t, mem_openTxns_iff.mpr ⟨owner, ht⟩, hanchor⟩ hnone

theorem holder?_eq_self {m : Monitor} {key : Nat} {side : Side} {ctx : Int64}
    (h : (m.stack ctx).HasAnchor key side) : m.holder? key side ctx = some ctx := by
  unfold holder?
  rw [if_pos h]

end Monitor

end LockTrace
