import LockTrace.Proofs.Reopenings

/-!
# Closing everything at the end

At the end of a trace the transactions that are left are closed as if their locks were released,
in one context after the other, as long as the context has any. Each round looks for a
transaction with the anchor of the innermost one, and so finds this one at once, whether or not
its lock is live and however often the anchor is on the stack. Nothing lies above it to be opened
again. Hence the loop takes as many rounds as there are transactions (`Monitor.empties_iff`), and
every transaction ends exactly once (`Monitor.Finishes`). This does not rest on anything that was
done before.
-/

namespace LockTrace

namespace Monitor

/-! ### One round -/

/-- Close the innermost transaction `top` of a context, in which it lies on `below`. -/
def closeInnermost (m : Monitor) (ctx : Int64) (time : UInt64) (top : Txn) (below : TxnStack) :
    Monitor :=
  ((m.remark (.stillActive (below.length + 1) ctx)).closeTxn top.lock top.side ctx time false).2

section Round

variable {m : Monitor} {ctx : Int64} {top : Txn} {below : TxnStack}

theorem stack_closeInnermost (hstack : m.stack ctx = top :: below) (time : UInt64) (c : Int64) :
    (m.closeInnermost ctx time top below).stack c = if ctx = c then below else m.stack c := by
  have hsame : (m.remark (.stillActive (below.length + 1) ctx)).stack ctx = top :: below := hstack
  unfold closeInnermost
  rw [stack_closeTxn, hsame, TxnStack.unwound_cons_self]
  rfl

theorem closeContext_succ (hstack : m.stack ctx = top :: below) (time : UInt64) (rounds : Nat) :
    closeContext ctx time (rounds + 1) m =
      closeContext ctx time rounds (m.closeInnermost ctx time top below) := by
  rw [closeContext, hstack]
  rfl

end Round

/-! ### The loops without a bound -/

/-- A run of the loop over the transactions of one context. It ends when there are none. -/
inductive Empties (ctx : Int64) (time : UInt64) : Monitor → Monitor → Prop
  | done {m : Monitor} (hstack : m.stack ctx = []) : Empties ctx time m m
  | round {m m' : Monitor} {top : Txn} {below : TxnStack} (hstack : m.stack ctx = top :: below)
      (hrest : Empties ctx time (m.closeInnermost ctx time top below) m') : Empties ctx time m m'

/-- A run of the loop over some contexts. -/
inductive EmptiesAll (time : UInt64) : List Int64 → Monitor → Monitor → Prop
  | nil {m : Monitor} : EmptiesAll time [] m m
  | cons {ctx : Int64} {ctxs : List Int64} {m m₁ m' : Monitor} (hfirst : Empties ctx time m m₁)
      (hrest : EmptiesAll time ctxs m₁ m') : EmptiesAll time (ctx :: ctxs) m m'

/-- The loop ends from every state, after one round for each transaction. -/
theorem empties_iff {ctx : Int64} {time : UInt64} {m m' : Monitor} :
    Empties ctx time m m' ↔ m' = closeContext ctx time (m.stack ctx).length m := by
  constructor
  · intro h
    induction h with
    | done hstack => rw [hstack, List.length_nil, closeContext]
    | round hstack _ ih =>
      rw [ih, stack_closeInnermost hstack, if_pos rfl, hstack, List.length_cons,
        closeContext_succ hstack]
  · rintro rfl
    generalize hs : m.stack ctx = s
    induction s generalizing m with
    | nil => exact .done hs
    | cons top below ih =>
      have hbelow : (m.closeInnermost ctx time top below).stack ctx = below := by
        rw [stack_closeInnermost hs, if_pos rfl]
      rw [List.length_cons, closeContext_succ hs]
      exact .round hs (ih hbelow)

theorem emptiesAll_iff {time : UInt64} {ctxs : List Int64} {m m' : Monitor} :
    EmptiesAll time ctxs m m' ↔
      m' = ctxs.foldl (fun m ctx => closeContext ctx time (m.stack ctx).length m) m := by
  constructor
  · intro h
    induction h with
    | nil => rfl
    | cons hfirst _ ih => rw [ih, empties_iff.mp hfirst, List.foldl_cons]
  · rintro rfl
    induction ctxs generalizing m with
    | nil => exact .nil
    | cons ctx ctxs ih => exact .cons (empties_iff.mpr rfl) ih

/-! ### What ends -/

/-- The transactions `ended` were closed at `time`, in this order, and none was opened. The locks
    are what they were. -/
structure Finishes (m m' : Monitor) (time : UInt64) (ended : List Txn) : Prop where
  outputs : ∃ os, m'.outputs = m.outputs ++ os ∧
    os.filter Output.isEnding = ended.map (Txn.ending m.skipEmpty time)
  emitted : m'.stats.emitted = m.stats.emitted + ended.countP (Txn.isWritten m.skipEmpty)
  suppressed : m'.stats.suppressed =
    m.stats.suppressed + ended.countP (fun t => !t.isWritten m.skipEmpty)
  opened : m'.stats.opened = m.stats.opened
  reopened : m'.stats.reopened = m.stats.reopened
  issued : m'.txnIds.next = m.txnIds.next
  skipEmpty : m'.skipEmpty = m.skipEmpty
  locks : m'.locks = m.locks

namespace Finishes

variable {m m₁ m' : Monitor} {time : UInt64} {ended later : List Txn}

theorem refl (m : Monitor) (time : UInt64) : m.Finishes m time [] :=
  ⟨⟨[], (List.append_nil _).symm, rfl⟩, rfl, rfl, rfl, rfl, rfl, rfl, rfl⟩

theorem trans (h : m.Finishes m₁ time ended) (h' : m₁.Finishes m' time later) :
    m.Finishes m' time (ended ++ later) where
  outputs := by
    obtain ⟨os, hos, hendings⟩ := h.outputs
    obtain ⟨os', hos', hendings'⟩ := h'.outputs
    refine ⟨os ++ os', by rw [hos', hos, List.append_assoc], ?_⟩
    rw [List.filter_append, hendings, hendings', h.skipEmpty, List.map_append]
  emitted := by
    rw [h'.emitted, h.emitted, h.skipEmpty, List.countP_append, Nat.add_assoc]
  suppressed := by
    rw [h'.suppressed, h.suppressed, h.skipEmpty, List.countP_append, Nat.add_assoc]
  opened := h'.opened.trans h.opened
  reopened := h'.reopened.trans h.reopened
  issued := h'.issued.trans h.issued
  skipEmpty := h'.skipEmpty.trans h.skipEmpty
  locks := h'.locks.trans h.locks

end Finishes

/-- The innermost transaction is found at once, so that it ends and no other. -/
theorem finishes_closeInnermost {m : Monitor} {ctx : Int64} {top : Txn} {below : TxnStack}
    (hstack : m.stack ctx = top :: below) (time : UInt64) :
    m.Finishes (m.closeInnermost ctx time top below) time [top] := by
  let remarked := m.remark (.stillActive (below.length + 1) ctx)
  have hsplit : remarked.stack ctx = [] ++ top :: below := hstack
  have habove : ¬ TxnStack.HasAnchor [] top.lock top.side := by simp [TxnStack.HasAnchor]
  have hreopens :
      remarked.Reopens (m.closeInnermost ctx time top below) ctx time [top] [] below := by
    apply reopens_of_unwound
    · rw [hsplit, TxnStack.closed_of_split top.anchoredAt_self habove, List.nil_append]
    · rw [hsplit, TxnStack.displaced_of_split top.anchoredAt_self habove]
    · rw [hsplit, TxnStack.unwound_of_split top.anchoredAt_self habove]
      rfl
  constructor
  case outputs =>
    obtain ⟨os, hos, hendings⟩ := hreopens.outputs
    have hremark : remarked.outputs =
        m.outputs ++ [.remark (.stillActive (below.length + 1) ctx)] :=
      Journal.toList_outputs_add _ _
    refine ⟨.remark (.stillActive (below.length + 1) ctx) :: os, ?_, hendings⟩
    rw [hos, hremark, List.append_assoc]
    rfl
  case emitted => exact hreopens.emitted
  case suppressed => exact hreopens.suppressed
  case opened =>
    unfold closeInnermost
    rw [stats_closeTxn]
    rfl
  case reopened => exact hreopens.reopened
  case issued => exact hreopens.issued
  case skipEmpty => exact skipEmpty_closeTxn _ _ _ _ _ _
  case locks => exact hreopens.locks

theorem Empties.finishes {ctx : Int64} {time : UInt64} {m m' : Monitor}
    (h : Empties ctx time m m') : m.Finishes m' time (m.stack ctx) := by
  induction h with
  | done hstack =>
    rw [hstack]
    exact .refl _ time
  | round hstack _ ih =>
    rw [stack_closeInnermost hstack, if_pos rfl] at ih
    rw [hstack]
    exact (finishes_closeInnermost hstack time).trans ih

/-- Emptying one context leaves the stacks of the others. -/
theorem Empties.stack {ctx : Int64} {time : UInt64} {m m' : Monitor} (h : Empties ctx time m m')
    (c : Int64) : m'.stack c = if ctx = c then [] else m.stack c := by
  rw [empties_iff.mp h]
  exact stack_closeContext ctx time _ (Nat.le_refl _) c

/-- As no context comes twice, each has the stack with which the whole loop began. -/
theorem EmptiesAll.finishes {time : UInt64} {ctxs : List Int64} {m m' : Monitor}
    (h : EmptiesAll time ctxs m m') (hnodup : ctxs.Nodup) :
    m.Finishes m' time (ctxs.flatMap m.stack) := by
  induction h with
  | nil => exact .refl _ time
  | @cons ctx ctxs m m₁ m' hfirst _ ih =>
    obtain ⟨hnew, hrest⟩ := List.nodup_cons.mp hnodup
    have hsame : ctxs.flatMap m₁.stack = ctxs.flatMap m.stack := by
      refine List.flatMap_congr fun c hc => ?_
      rw [hfirst.stack, if_neg]
      rintro rfl
      exact hnew hc
    rw [List.flatMap_cons, ← hsame]
    exact hfirst.finishes.trans (ih hrest)

/-! ### All contexts -/

theorem keys_running_ascending (m : Monitor) : m.running.keys.Pairwise (· < ·) :=
  List.pairwise_map.mpr m.running.ascending

theorem isIdle_of_stacks {m : Monitor} (h : ∀ ctx, m.stack ctx = []) : m.isIdle = true := by
  apply List.all_eq_true.mpr
  intro s hs
  obtain ⟨ctx, hget⟩ := AscMap.mem_values_iff.mp hs
  have hempty := h ctx
  unfold stack at hempty
  rw [hget] at hempty
  exact List.isEmpty_iff.mpr hempty

/-- From every state the loops over all contexts, in ascending order, have one run and no other,
    and this ends. Every transaction that was open is closed once, from the innermost one of its
    context outwards, and none is left or opened. -/
theorem closeAll_finishes (m : Monitor) (time : UInt64) :
    (∀ m', EmptiesAll time m.running.keys m m' ↔ m' = m.closeAll time) ∧
    m.running.keys.Pairwise (· < ·) ∧ (∀ ctx, m.stack ctx ≠ [] → ctx ∈ m.running.keys) ∧
    m.Finishes (m.closeAll time) time (m.running.keys.flatMap m.stack) ∧
    (∀ ctx, (m.closeAll time).stack ctx = []) ∧ (m.closeAll time).isIdle = true := by
  have hnodup : m.running.keys.Nodup :=
    m.keys_running_ascending.imp fun hlt => Int64.ne_of_lt hlt
  have hrun : EmptiesAll time m.running.keys m (m.closeAll time) := emptiesAll_iff.mpr rfl
  have hempty := m.stack_closeAll time
  exact ⟨fun _ => emptiesAll_iff, m.keys_running_ascending,
    fun _ hne => AscMap.mem_keys_iff.mpr ⟨_, get?_running_of_ne_nil hne⟩,
    hrun.finishes hnodup, hempty, isIdle_of_stacks hempty⟩

end Monitor

end LockTrace
