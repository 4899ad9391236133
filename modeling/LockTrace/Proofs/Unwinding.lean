import LockTrace.Monitor.Closing
import LockTrace.Proofs.Stacks

/-!
# What unwinding a stack does

Unwinding works on the stack of one context from the top. What becomes of the stack, which
outputs are brought forth, and how many numbers are handed out, are functions of the stack
and of the locks alone; the locks themselves and the stacks of the other contexts stay
(`unwind_eq`). Closing the transaction of a sub-lock is unwinding the stack of its context
(`journal_closeTxn`, `stack_closeTxn`), and a transaction that is looked for in all contexts
is found if there is one (`closeAnywhere_found`).
-/

namespace LockTrace

namespace Journal

theorem addAll_addAll (j : Journal) (os ps : List Output) :
    (j.addAll os).addAll ps = j.addAll (os ++ ps) := by
  simp [addAll, List.foldl_append]

end Journal

/-! ### The parts of unwinding -/

namespace TxnStack

/-- How many transactions lie above the innermost one that is anchored at a sub-lock. If
    none is, these are all. -/
def displaced (key : Nat) (side : Side) : TxnStack → Nat
  | [] => 0
  | top :: below => if top.AnchoredAt key side then 0 else displaced key side below + 1

/-- The stack after the innermost transaction anchored at a sub-lock was closed. Those above
    it are opened again; `next` is the first number for them. -/
def unwound (key : Nat) (side : Side) (time : UInt64) (purge : Bool) : Nat → TxnStack → TxnStack
  | _, [] => []
  | next, top :: below =>
    if top.AnchoredAt key side then
      if purge then dropAnchor below key .reader else below
    else top.reopened next time :: unwound key side time purge (next + 1) below

theorem unwound_cons_self (time : UInt64) (next : Nat) (top : Txn) (below : TxnStack) :
    unwound top.lock top.side time false next (top :: below) = below := by
  rw [unwound, if_pos top.anchoredAt_self]
  rfl

/-! ### Anchors after unwinding -/

section Anchors

variable (key : Nat) (side : Side) (time : UInt64) (purge : Bool)

theorem countAnchored_reopened_cons (t : Txn) (id : Nat) (s : TxnStack) (k : Nat) (sd : Side) :
    countAnchored (t.reopened id time :: s) k sd =
      countAnchored s k sd + if t.AnchoredAt k sd then 1 else 0 :=
  countAnchored_cons (t.reopened id time) s k sd

theorem countAnchored_unwound_le (next : Nat) (s : TxnStack) (k : Nat) (sd : Side) :
    (s.unwound key side time purge next).countAnchored k sd ≤ s.countAnchored k sd := by
  induction s generalizing next with
  | nil => exact Nat.le_refl _
  | cons top below ih =>
    rw [unwound, countAnchored_cons]
    split
    · split
      · rw [countAnchored_dropAnchor]
        split <;> omega
      · omega
    · rw [countAnchored_reopened_cons]
      exact Nat.add_le_add_right (ih (next + 1)) _

/-- The transactions of the other locks are opened again where they were. -/
theorem countAnchored_unwound_of_ne {key k : Nat} (hk : key ≠ k) (next : Nat) (s : TxnStack)
    (sd : Side) :
    (s.unwound key side time purge next).countAnchored k sd = s.countAnchored k sd := by
  induction s generalizing next with
  | nil => rfl
  | cons top below ih =>
    rw [unwound, countAnchored_cons]
    split
    · next hanchor =>
      have hother : ¬ top.AnchoredAt k sd := fun h => hk (hanchor.1.symm.trans h.1)
      rw [if_neg hother]
      split
      · rw [countAnchored_dropAnchor, if_neg (fun h => hk h.1)]
        rfl
      · rfl
    · rw [countAnchored_reopened_cons, ih]

/-- Without purging, the one transaction that is closed is all that is missing. -/
theorem countAnchored_unwound_add {key : Nat} {side : Side} (next : Nat) {s : TxnStack}
    (h : s.HasAnchor key side) (k : Nat) (sd : Side) :
    ((s.unwound key side time false next).countAnchored k sd +
      if key = k ∧ side = sd then 1 else 0) = s.countAnchored k sd := by
  induction s generalizing next with
  | nil =>
    obtain ⟨t, ht, _⟩ := h
    cases ht
  | cons top below ih =>
    rw [unwound, countAnchored_cons]
    split
    · next hanchor =>
      obtain ⟨rfl, rfl⟩ := hanchor
      rfl
    · next hanchor =>
      have hbelow := (hasAnchor_cons.mp h).resolve_left hanchor
      rw [countAnchored_reopened_cons, ← ih (next + 1) hbelow]
      omega

theorem countAnchored_unwound_lt {key : Nat} {side : Side} (next : Nat) {s : TxnStack}
    (h : s.HasAnchor key side) :
    (s.unwound key side time purge next).countAnchored key side < s.countAnchored key side := by
  induction s generalizing next with
  | nil =>
    obtain ⟨t, ht, _⟩ := h
    cases ht
  | cons top below ih =>
    rw [unwound, countAnchored_cons]
    split
    · split
      · rw [countAnchored_dropAnchor]
        split <;> omega
      · omega
    · next hanchor =>
      have hbelow := (hasAnchor_cons.mp h).resolve_left hanchor
      rw [countAnchored_reopened_cons, if_neg hanchor]
      exact ih (next + 1) hbelow

/-- Purging leaves no reader's transaction of the lock. -/
theorem countAnchored_unwound_purge (key next : Nat) (s : TxnStack) :
    (s.unwound key .reader time true next).countAnchored key .reader = 0 := by
  induction s generalizing next with
  | nil => rfl
  | cons top below ih =>
    rw [unwound]
    split
    · rw [if_pos rfl, countAnchored_dropAnchor, if_pos ⟨rfl, rfl⟩]
    · next hanchor => rw [countAnchored_reopened_cons, if_neg hanchor, ih]

end Anchors

end TxnStack

namespace LockStore

/-- The outputs of closing the transaction `top`, which lies on `below`. -/
def closeOutputs (locks : LockStore) (skipEmpty : Bool) (time : UInt64) (top : Txn)
    (below : TxnStack) : List Output :=
  if skipEmpty ∧ top.accesses = 0 then [.remark (.suppressed top.id)]
  else
    .record (.txn ⟨top.id, top.start, time⟩) ::
      locks.heldOutputs top.id time [] (top :: below).reverse

/-- The text for one side of a lock in a report, empty for a lock that is gone. -/
def describe (locks : LockStore) (key : Nat) (side : Side) : String :=
  ((locks.get? key).map (·.describe side)).getD ""

/-- The report on a transaction of the lock `key` that is not the one looked for. -/
def mismatchOutputs (locks : LockStore) (key : Nat) (time : UInt64) (top : Txn) : List Output :=
  if top.lock = key then
    [.report (.anchor .sideMismatch (locks.describe key top.side) time top.id)]
  else []

/-- The outputs of dropping the reader's transactions of a lock from a stack. -/
def purgeOutputs (locks : LockStore) (key : Nat) (ctx : Int64) (time : UInt64) (s : TxnStack) :
    List Output :=
  ((s.filter (fun t => decide (t.AnchoredAt key .reader))).reverse.map fun t =>
    Output.remark (.purged t.id ctx time)) ++
  (s.filter (fun t => decide (t.AnchoredAt key .writer))).map fun _ =>
    Output.report (.multipleWriterTxns (locks.describe key .writer) time ctx)

def unwindOutputs (locks : LockStore) (skipEmpty : Bool) (key : Nat) (side : Side) (ctx : Int64)
    (time : UInt64) (purge : Bool) : TxnStack → List Output
  | [] => []
  | top :: below =>
    locks.closeOutputs skipEmpty time top below ++
      if top.AnchoredAt key side then
        if purge then locks.purgeOutputs key ctx time below else []
      else
        locks.mismatchOutputs key time top ++
          unwindOutputs locks skipEmpty key side ctx time purge below

end LockStore

namespace Monitor

/-! ### Unwinding as a whole -/

theorem closeTop_eq (m : Monitor) (time : UInt64) (top : Txn) (below : TxnStack) :
    ∃ stats, m.closeTop time top below =
      { m with
        journal := m.journal.addAll (m.locks.closeOutputs m.skipEmpty time top below)
        stats := stats } := by
  unfold closeTop LockStore.closeOutputs
  split
  · exact ⟨_, rfl⟩
  · exact ⟨_, rfl⟩

theorem purgeReaders_eq (m : Monitor) (key : Nat) (ctx : Int64) (time : UInt64) (s : TxnStack) :
    m.purgeReaders key ctx time s =
      ({ m with journal := m.journal.addAll (m.locks.purgeOutputs key ctx time s) },
        s.dropAnchor key .reader) := rfl

theorem mismatch_eq (m : Monitor) (key : Nat) (time : UInt64) (top : Txn) :
    (if top.lock = key then
      m.report (.anchor .sideMismatch (m.describe key top.side) time top.id)
    else m) =
      { m with journal := m.journal.addAll (m.locks.mismatchOutputs key time top) } := by
  unfold LockStore.mismatchOutputs
  split
  · rfl
  · rfl

theorem unwind_eq (key : Nat) (side : Side) (ctx : Int64) (time : UInt64) (purge : Bool)
    (m : Monitor) (s : TxnStack) :
    ∃ stats, unwind key side ctx time purge m s =
      { monitor :=
          { m with
            journal := m.journal.addAll
              (m.locks.unwindOutputs m.skipEmpty key side ctx time purge s)
            txnIds := ⟨m.txnIds.next + s.displaced key side⟩
            stats := stats }
        stack := s.unwound key side time purge m.txnIds.next
        found := decide (s.HasAnchor key side) } := by
  induction s generalizing m with
  | nil => exact ⟨_, rfl⟩
  | cons top below ih =>
    obtain ⟨stats, hclose⟩ := m.closeTop_eq time top below
    simp only [unwind, hclose, TxnStack.unwound, TxnStack.displaced, LockStore.unwindOutputs,
      TxnStack.hasAnchor_cons]
    by_cases hanchor : top.AnchoredAt key side
    · cases purge with
      | true =>
        simp only [hanchor, if_true, purgeReaders_eq, Journal.addAll_addAll, true_or, decide_true]
        exact ⟨_, rfl⟩
      | false =>
        simp only [hanchor, if_true, Bool.false_eq_true, if_false, List.append_nil, true_or,
          decide_true]
        exact ⟨_, rfl⟩
    · simp only [hanchor, if_false, mismatch_eq]
      -- the rest of the stack is unwound with the next number and one more output or two
      obtain ⟨stats', hrest⟩ := ih
        { m with
          journal := (m.journal.addAll (m.locks.closeOutputs m.skipEmpty time top below)).addAll
            (m.locks.mismatchOutputs key time top)
          txnIds := m.txnIds.advance
          stats := { stats with reopened := stats.reopened + 1 } }
      refine ⟨stats', Eq.trans (congrArg (fun u : Unwound =>
        { u with stack := top.reopened m.txnIds.next time :: u.stack }) hrest) ?_⟩
      simp only [Counter.advance, Journal.addAll_addAll, List.append_assoc, false_or,
        Nat.add_assoc, Nat.add_comm 1]

/-! ### Closing one transaction -/

section CloseTxn

variable (m : Monitor) (key : Nat) (side : Side) (ctx : Int64) (time : UInt64) (purge : Bool)

theorem closeTxn_eq :
    ∃ stats, m.closeTxn key side ctx time purge =
      (decide ((m.stack ctx).HasAnchor key side),
        setStack
          { m with
            journal := m.journal.addAll
              (m.locks.unwindOutputs m.skipEmpty key side ctx time purge (m.stack ctx))
            txnIds := ⟨m.txnIds.next + (m.stack ctx).displaced key side⟩
            stats := stats }
          ctx ((m.stack ctx).unwound key side time purge m.txnIds.next)) := by
  obtain ⟨stats, h⟩ := unwind_eq key side ctx time purge m (m.stack ctx)
  refine ⟨stats, ?_⟩
  unfold closeTxn
  rw [h]

@[simp] theorem closeTxn_found :
    (m.closeTxn key side ctx time purge).1 = decide ((m.stack ctx).HasAnchor key side) := by
  obtain ⟨stats, h⟩ := m.closeTxn_eq key side ctx time purge
  rw [h]

@[simp] theorem locks_closeTxn : (m.closeTxn key side ctx time purge).2.locks = m.locks := by
  obtain ⟨stats, h⟩ := m.closeTxn_eq key side ctx time purge
  rw [h]
  rfl

@[simp] theorem skipEmpty_closeTxn :
    (m.closeTxn key side ctx time purge).2.skipEmpty = m.skipEmpty := by
  obtain ⟨stats, h⟩ := m.closeTxn_eq key side ctx time purge
  rw [h]
  rfl

theorem journal_closeTxn :
    (m.closeTxn key side ctx time purge).2.journal = m.journal.addAll
      (m.locks.unwindOutputs m.skipEmpty key side ctx time purge (m.stack ctx)) := by
  obtain ⟨stats, h⟩ := m.closeTxn_eq key side ctx time purge
  rw [h]
  rfl

theorem next_closeTxn :
    (m.closeTxn key side ctx time purge).2.txnIds.next =
      m.txnIds.next + (m.stack ctx).displaced key side := by
  obtain ⟨stats, h⟩ := m.closeTxn_eq key side ctx time purge
  rw [h]
  rfl

theorem stack_closeTxn (c : Int64) :
    (m.closeTxn key side ctx time purge).2.stack c =
      if ctx = c then (m.stack ctx).unwound key side time purge m.txnIds.next
      else m.stack c := by
  obtain ⟨stats, h⟩ := m.closeTxn_eq key side ctx time purge
  rw [h]
  exact stack_setStack _ _ _ _

theorem openTxns_closeTxn_perm :
    (m.closeTxn key side ctx time purge).2.openTxns.Perm
      ((m.stack ctx).unwound key side time purge m.txnIds.next ++ m.elsewhere ctx) := by
  obtain ⟨stats, h⟩ := m.closeTxn_eq key side ctx time purge
  rw [h]
  exact openTxns_setStack_perm _ _ _

theorem countAnchored_closeTxn (k : Nat) (sd : Side) :
    (m.closeTxn key side ctx time purge).2.countAnchored k sd =
      ((m.stack ctx).unwound key side time purge m.txnIds.next).countAnchored k sd +
        TxnStack.countAnchored (m.elsewhere ctx) k sd := by
  rw [countAnchored_eq, TxnStack.countAnchored_perm
    (m.openTxns_closeTxn_perm key side ctx time purge), TxnStack.countAnchored_append]

/-- One transaction of the sub-lock is closed for good. -/
theorem countAnchored_closeTxn_lt {m : Monitor} {key : Nat} {side : Side} {owner : Int64}
    (h : (m.stack owner).HasAnchor key side) (time : UInt64) (purge : Bool) :
    (m.closeTxn key side owner time purge).2.countAnchored key side < m.countAnchored key side := by
  rw [countAnchored_closeTxn, m.countAnchored_split owner]
  exact Nat.add_lt_add_right (TxnStack.countAnchored_unwound_lt time purge _ h) _

theorem NoEmptyStack.closeTxn {m : Monitor} (h : m.NoEmptyStack) :
    (m.closeTxn key side ctx time purge).2.NoEmptyStack := by
  obtain ⟨stats, heq⟩ := m.closeTxn_eq key side ctx time purge
  rw [heq]
  exact NoEmptyStack.setStack (m := { m with journal := _, txnIds := _, stats := _ }) h _ _

end CloseTxn

/-- A transaction of the sub-lock is looked for in all contexts, and the one closed is on the
    stack of some context. -/
theorem closeAnywhere_cases (m : Monitor) (key : Nat) (side : Side) (ctx : Int64)
    (time : UInt64) (purge : Bool) :
    (∃ owner, m.holder? key side ctx = some owner ∧ (m.stack owner).HasAnchor key side ∧
      m.closeAnywhere key side ctx time purge = m.closeTxn key side owner time purge) ∨
    (m.countAnchored key side = 0 ∧
      m.closeAnywhere key side ctx time purge = (false, m)) := by
  unfold closeAnywhere
  cases h : m.holder? key side ctx with
  | none => exact Or.inr ⟨holder?_eq_none_iff.mp h, rfl⟩
  | some owner => exact Or.inl ⟨owner, rfl, hasAnchor_of_holder? h, rfl⟩

theorem closeAnywhere_found (m : Monitor) (key : Nat) (side : Side) (ctx : Int64)
    (time : UInt64) (purge : Bool) :
    (m.closeAnywhere key side ctx time purge).1 = decide (0 < m.countAnchored key side) := by
  rcases m.closeAnywhere_cases key side ctx time purge with
    ⟨owner, hholder, hanchor, heq⟩ | ⟨hzero, heq⟩
  · have hpos : 0 < m.countAnchored key side :=
      Nat.lt_of_lt_of_le (TxnStack.countAnchored_pos_iff.mpr hanchor)
        (m.countAnchored_stack_le owner key side)
    rw [heq, closeTxn_found]
    simp [hanchor, hpos]
  · rw [heq]
    simp [hzero]

end Monitor

end LockTrace
