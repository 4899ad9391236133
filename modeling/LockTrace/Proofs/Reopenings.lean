import LockTrace.Proofs.Tallies
import LockTrace.Proofs.TxnRows

/-!
# What closing a transaction leaves

The transaction that is closed splits the stack of its context. Those above it are closed
before it, from the innermost outwards, and are opened again in the order in which they were;
those below it stay, apart from the readers that are purged. So the outputs, the numbers and
the stack after unwinding are told by the two parts of the stack and nothing else
(`Monitor.Reopens`). Without a transaction to close, the whole stack is the part above.
-/

namespace LockTrace

/-! ### The ends of transactions -/

/-- Whether a transaction has a row when it is closed. -/
def Txn.isWritten (skipEmpty : Bool) (t : Txn) : Bool := !skipEmpty || decide (0 < t.accesses)

/-- What tells the end of a transaction that is closed. -/
def Txn.ending (skipEmpty : Bool) (time : UInt64) (t : Txn) : Output :=
  if t.isWritten skipEmpty then .record (.txn (t.row time)) else .remark (.suppressed t.id)

/-- Whether an output tells the end of a transaction that was closed. -/
def Output.isEnding : Output → Bool
  | .record (.txn _) => true
  | .remark (.suppressed _) => true
  | _ => false

namespace Output

variable {o : Output}

theorem txnRowId?_of_not_isEnding (h : o.isEnding = false) : o.txnRowId? = none := by
  cases o with
  | record r => cases r <;> first | rfl | cases h
  | report i => rfl
  | remark r => rfl

theorem suppressedId?_of_not_isEnding (h : o.isEnding = false) : o.suppressedId? = none := by
  cases o with
  | record r => rfl
  | report i => rfl
  | remark r => cases r <;> first | rfl | cases h

/-- What only endings have can be looked for among them. -/
theorem filterMap_endings {α : Type} {f : Output → Option α}
    (hf : ∀ o : Output, o.isEnding = false → f o = none) (os : List Output) :
    (os.filter isEnding).filterMap f = os.filterMap f := by
  rw [List.filterMap_filter]
  congr 1
  funext o
  cases ho : o.isEnding with
  | true => rfl
  | false => exact (hf o ho).symm

end Output

namespace LockStore

variable (locks : LockStore) (skipEmpty : Bool) (key : Nat) (side : Side) (ctx : Int64)
  (time : UInt64) (purge : Bool)

theorem endings_closeOutputs (top : Txn) (below : TxnStack) :
    (locks.closeOutputs skipEmpty time top below).filter Output.isEnding =
      [top.ending skipEmpty time] := by
  have hheld : (locks.heldOutputs top.id time [] (top :: below).reverse).filter
      Output.isEnding = [] := by
    apply List.filter_eq_nil_iff.mpr
    intro o ho
    exact heldOutputs_forall (P := fun o => ¬ o.isEnding = true) locks time
      (fun _ => Bool.false_ne_true) (fun _ _ => Bool.false_ne_true) ho
  unfold closeOutputs Txn.ending Txn.isWritten
  by_cases hskip : skipEmpty = true ∧ top.accesses = 0
  · simp [hskip, Output.isEnding]
  · have hwritten : (!skipEmpty || decide (0 < top.accesses)) = true := by
      cases skipEmpty with
      | false => rfl
      | true => simpa [Nat.pos_iff_ne_zero] using hskip
    rw [if_neg hskip, if_pos hwritten, List.filter_cons_of_pos rfl, hheld]
    rfl

theorem endings_mismatchOutputs (top : Txn) :
    (locks.mismatchOutputs key time top).filter Output.isEnding = [] := by
  unfold mismatchOutputs
  split <;> rfl

theorem endings_purgeOutputs (s : TxnStack) :
    (locks.purgeOutputs key ctx time s).filter Output.isEnding = [] := by
  apply List.filter_eq_nil_iff.mpr
  intro o ho
  rcases List.mem_append.mp ho with ho | ho
  · obtain ⟨t, _, rfl⟩ := List.mem_map.mp ho
    exact Bool.false_ne_true
  · obtain ⟨t, _, rfl⟩ := List.mem_map.mp ho
    exact Bool.false_ne_true

/-- The transactions that are closed end one after the other, the innermost first. -/
theorem endings_unwindOutputs (s : TxnStack) :
    (locks.unwindOutputs skipEmpty key side ctx time purge s).filter Output.isEnding =
      (s.closed key side).map (Txn.ending skipEmpty time) := by
  induction s with
  | nil => rfl
  | cons top below ih =>
    rw [unwindOutputs, TxnStack.closed, List.filter_append, endings_closeOutputs, List.map_cons]
    split
    · split
      · rw [endings_purgeOutputs]
        rfl
      · rfl
    · rw [List.filter_append, endings_mismatchOutputs, ih]
      rfl

end LockStore

/-! ### The two parts of a stack -/

namespace TxnStack

/-- The transactions of a stack opened again at `time`, in their order and with the numbers
    from `next` on. -/
def reopened (time : UInt64) (next : Nat) (s : TxnStack) : TxnStack :=
  (s.zipIdx next).map fun e => e.1.reopened e.2 time

theorem reopened_cons (time : UInt64) (next : Nat) (top : Txn) (below : TxnStack) :
    reopened time next (top :: below) =
      top.reopened next time :: reopened time (next + 1) below := by
  simp [reopened]

theorem ids_reopened (time : UInt64) (next : Nat) (s : TxnStack) :
    (s.reopened time next).map Txn.id = List.range' next s.length := by
  induction s generalizing next with
  | nil => rfl
  | cons top below ih =>
    rw [reopened_cons, List.map_cons, ih, List.length_cons, List.range'_succ]
    rfl

section Split

variable {key : Nat} {side : Side} {above below : TxnStack} {t : Txn}

theorem closed_of_split (hanchor : t.AnchoredAt key side) (habove : ¬ above.HasAnchor key side) :
    closed key side (above ++ t :: below) = above ++ [t] := by
  induction above with
  | nil => rw [List.nil_append, closed, if_pos hanchor, List.nil_append]
  | cons top above ih =>
    rw [hasAnchor_cons, not_or] at habove
    rw [List.cons_append, closed, if_neg habove.1, ih habove.2, List.cons_append]

theorem displaced_of_split (hanchor : t.AnchoredAt key side)
    (habove : ¬ above.HasAnchor key side) :
    displaced key side (above ++ t :: below) = above.length := by
  induction above with
  | nil => rw [List.nil_append, displaced, if_pos hanchor, List.length_nil]
  | cons top above ih =>
    rw [hasAnchor_cons, not_or] at habove
    rw [List.cons_append, displaced, if_neg habove.1, ih habove.2, List.length_cons]

theorem unwound_of_split (hanchor : t.AnchoredAt key side) (habove : ¬ above.HasAnchor key side)
    (time : UInt64) (purge : Bool) (next : Nat) :
    unwound key side time purge next (above ++ t :: below) =
      above.reopened time next ++ if purge then below.dropAnchor key .reader else below := by
  induction above generalizing next with
  | nil =>
    rw [List.nil_append, unwound, if_pos hanchor]
    rfl
  | cons top above ih =>
    rw [hasAnchor_cons, not_or] at habove
    rw [List.cons_append, unwound, if_neg habove.1, ih habove.2, reopened_cons, List.cons_append]

end Split

section Whole

variable {key : Nat} {side : Side} {s : TxnStack}

theorem closed_of_not_hasAnchor (h : ¬ s.HasAnchor key side) : closed key side s = s := by
  induction s with
  | nil => rfl
  | cons top below ih =>
    rw [hasAnchor_cons, not_or] at h
    rw [closed, if_neg h.1, ih h.2]

theorem displaced_of_not_hasAnchor (h : ¬ s.HasAnchor key side) :
    displaced key side s = s.length := by
  induction s with
  | nil => rfl
  | cons top below ih =>
    rw [hasAnchor_cons, not_or] at h
    rw [displaced, if_neg h.1, ih h.2, List.length_cons]

theorem unwound_of_not_hasAnchor (h : ¬ s.HasAnchor key side) (time : UInt64) (purge : Bool)
    (next : Nat) : unwound key side time purge next s = s.reopened time next := by
  induction s generalizing next with
  | nil => rfl
  | cons top below ih =>
    rw [hasAnchor_cons, not_or] at h
    rw [unwound, if_neg h.1, ih h.2, reopened_cons]

end Whole

end TxnStack

namespace Monitor

/-! ### Closing and opening again -/

/-- In the context `ctx` the transactions `ended` were closed at `time`, in this order. Of
    them `displaced` were opened again, on top of those of `rest`. Nothing else changed in any
    context or lock. -/
structure Reopens (m m' : Monitor) (ctx : Int64) (time : UInt64)
    (ended displaced rest : TxnStack) : Prop where
  outputs : ∃ os, m'.outputs = m.outputs ++ os ∧
    os.filter Output.isEnding = ended.map (Txn.ending m.skipEmpty time)
  emitted : m'.stats.emitted = m.stats.emitted + ended.countP (Txn.isWritten m.skipEmpty)
  suppressed : m'.stats.suppressed =
    m.stats.suppressed + ended.countP (fun t => !t.isWritten m.skipEmpty)
  reopened : m'.stats.reopened = m.stats.reopened + displaced.length
  entry : m'.running.get? ctx =
    if displaced = [] ∧ rest = [] then none
    else some (displaced.reopened time m.txnIds.next ++ rest)
  issued : m'.txnIds.next = m.txnIds.next + displaced.length
  fresh : m.Conserved → ∀ t ∈ displaced.reopened time m.txnIds.next,
    t.id ∉ m.openIds ∧ t.id ∉ m.closedIds
  elsewhere : ∀ c, c ≠ ctx → m'.running.get? c = m.running.get? c
  locks : m'.locks = m.locks

theorem running_closeTxn (m : Monitor) (key : Nat) (side : Side) (ctx : Int64) (time : UInt64)
    (purge : Bool) (c : Int64) :
    (m.closeTxn key side ctx time purge).2.running.get? c =
      if ctx = c then
        (if (m.stack ctx).unwound key side time purge m.txnIds.next = [] then none
        else some ((m.stack ctx).unwound key side time purge m.txnIds.next))
      else m.running.get? c := by
  obtain ⟨stats, heq⟩ := m.closeTxn_eq key side ctx time purge
  rw [heq]
  exact get?_running_setStack _ _ _ _

section CloseTxn

variable {m : Monitor} {key : Nat} {side : Side} {ctx : Int64} {time : UInt64} {purge : Bool}
  {ended displaced rest : TxnStack}

theorem reopens_of_unwound (hended : (m.stack ctx).closed key side = ended)
    (hcount : (m.stack ctx).displaced key side = displaced.length)
    (hstack : (m.stack ctx).unwound key side time purge m.txnIds.next =
      displaced.reopened time m.txnIds.next ++ rest) :
    m.Reopens (m.closeTxn key side ctx time purge).2 ctx time ended displaced rest := by
  have hendings := m.locks.endings_unwindOutputs m.skipEmpty key side ctx time purge (m.stack ctx)
  rw [hended] at hendings
  have hstats := m.stats_closeTxn key side ctx time purge
  constructor
  · exact ⟨_, m.outputs_closeTxn key side ctx time purge, hendings⟩
  · rw [hstats]
    refine congrArg (m.stats.emitted + ·) ?_
    refine (congrArg List.length (Output.filterMap_endings
      (fun _ => Output.txnRowId?_of_not_isEnding) _)).symm.trans ?_
    rw [hendings, List.filterMap_map, List.length_filterMap_eq_countP]
    apply List.countP_congr
    intro t _
    cases ht : t.isWritten m.skipEmpty <;>
      simp [Txn.ending, ht, Output.txnRowId?, Output.record?, Record.txnId?]
  · rw [hstats]
    refine congrArg (m.stats.suppressed + ·) ?_
    refine (congrArg List.length (Output.filterMap_endings
      (fun _ => Output.suppressedId?_of_not_isEnding) _)).symm.trans ?_
    rw [hendings, List.filterMap_map, List.length_filterMap_eq_countP]
    apply List.countP_congr
    intro t _
    cases ht : t.isWritten m.skipEmpty <;> simp [Txn.ending, ht, Output.suppressedId?]
  · rw [hstats, ← hcount]
    rfl
  · have hempty : displaced.reopened time m.txnIds.next ++ rest = [] ↔
        displaced = [] ∧ rest = [] := by
      simp [TxnStack.reopened]
    rw [running_closeTxn, if_pos rfl, hstack]
    simp only [hempty]
  · rw [next_closeTxn, hcount]
  · intro hconserved t ht
    have hid : t.id ∈ List.range' m.txnIds.next displaced.length := by
      rw [← TxnStack.ids_reopened time]
      exact List.mem_map_of_mem ht
    exact hconserved.unused_of_le (List.mem_range'_1.mp hid).1
  · intro c hc
    rw [running_closeTxn, if_neg (Ne.symm hc)]
  · exact m.locks_closeTxn key side ctx time purge

end CloseTxn

/-- Closing a transaction closes those above it and it, opens those above it again, and leaves
    those below it, without the readers of the lock if they are purged. If there is none to
    close, this is done to the whole stack, and nothing is done to a context that has none. -/
theorem closeTxn_reopens (m : Monitor) (key : Nat) (side : Side) (ctx : Int64) (time : UInt64)
    (purge : Bool) :
    (∀ above t below, m.stack ctx = above ++ t :: below → t.AnchoredAt key side →
      ¬ TxnStack.HasAnchor above key side →
      (m.closeTxn key side ctx time purge).1 = true ∧
      m.Reopens (m.closeTxn key side ctx time purge).2 ctx time (above ++ [t]) above
        (if purge then TxnStack.dropAnchor below key .reader else below)) ∧
    (¬ (m.stack ctx).HasAnchor key side →
      (m.closeTxn key side ctx time purge).1 = false ∧
      m.Reopens (m.closeTxn key side ctx time purge).2 ctx time (m.stack ctx) (m.stack ctx) []) ∧
    (m.running.get? ctx = none → m.closeTxn key side ctx time purge = (false, m)) := by
  refine ⟨?_, ?_, ?_⟩
  · intro above t below hstack hanchor habove
    constructor
    · rw [closeTxn_found, hstack, decide_eq_true_eq]
      exact ⟨t, List.mem_append_right _ List.mem_cons_self, hanchor⟩
    · apply reopens_of_unwound
      · rw [hstack]
        exact TxnStack.closed_of_split hanchor habove
      · rw [hstack]
        exact TxnStack.displaced_of_split hanchor habove
      · rw [hstack]
        exact TxnStack.unwound_of_split hanchor habove time purge _
  · intro hnone
    constructor
    · rw [closeTxn_found, decide_eq_false hnone]
    · apply reopens_of_unwound
      · exact TxnStack.closed_of_not_hasAnchor hnone
      · exact TxnStack.displaced_of_not_hasAnchor hnone
      · rw [List.append_nil]
        exact TxnStack.unwound_of_not_hasAnchor hnone time purge _
  · intro hnone
    have hstack : m.stack ctx = [] := by
      unfold stack
      rw [hnone]
      rfl
    unfold closeTxn
    rw [hstack]
    simp only [unwind, setStack, List.isEmpty_nil, if_true, AscMap.erase_eq_self hnone]

/-- A reader's transaction of a lock, a writer's of the same lock with one access, and one of
    another lock without. -/
def nested : Monitor :=
  ((((initial true).openTxn 1 .reader 7 10).openTxn 1 .writer 7 20).countAccess 7).openTxn 2
    .writer 7 30

/-- The writer's transaction is closed and written, the one above it is suppressed and starts
    anew, and the reader's is purged. -/
theorem closeTxn_reopens_nested :
    (nested.closeTxn 1 .writer 7 40 true).1 = true ∧
    nested.Reopens (nested.closeTxn 1 .writer 7 40 true).2 7 40
      [⟨3, 30, 2, .writer, 0⟩, ⟨2, 20, 1, .writer, 1⟩] [⟨3, 30, 2, .writer, 0⟩] [] ∧
    (nested.closeTxn 1 .writer 7 40 true).2.running.get? 7 = some [⟨4, 40, 2, .writer, 0⟩] := by
  have hclose := (nested.closeTxn_reopens 1 .writer 7 40 true).1 [⟨3, 30, 2, .writer, 0⟩]
    ⟨2, 20, 1, .writer, 1⟩ [⟨1, 10, 1, .reader, 0⟩] (by decide +kernel) (by decide) (by decide)
  exact ⟨hclose.1, hclose.2, hclose.2.entry⟩

end Monitor

end LockTrace
