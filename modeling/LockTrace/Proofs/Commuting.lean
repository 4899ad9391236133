import LockTrace.Proofs.Accounts
import LockTrace.Proofs.Pairs
import LockTrace.Proofs.Renaming

/-!
# Operations of different contexts commute

If the transactions of a lock are all on the stack of one context (`Monitor.OwnedBy`), an operation
on the lock in this context reads and changes nothing but the lock and this stack, and hands out
numbers (`Monitor.Altered`). An operation on another lock in another context, carried out before,
does not show to it except by the numbers (`Monitor.Beside`), so that it does the same up to these
(`Monitor.Beside.step`). Two such operations therefore commute
(`Monitor.step_comm_of_calls`).
-/

namespace LockTrace

namespace Monitor

/-! ### Locks of one context -/

/-- The transactions of a lock are all on the stack of one context. -/
def OwnedBy (m : Monitor) (key : Nat) (ctx : Int64) : Prop :=
  ∀ c, ∀ t ∈ m.stack c, t.lock = key → c = ctx

theorem ownedBy_iff {m : Monitor} {key : Nat} {ctx : Int64} :
    m.OwnedBy key ctx ↔ ∀ e ∈ m.running.entries, ∀ t ∈ e.2, t.lock = key → e.1 = ctx := by
  constructor
  · intro h e he t ht
    apply h e.1 t
    unfold stack
    rw [AscMap.mem_entries_iff.mp he]
    exact ht
  · intro h c t ht
    unfold stack at ht
    cases hget : m.running.get? c with
    | none =>
      rw [hget] at ht
      cases ht
    | some s =>
      rw [hget] at ht
      exact h (c, s) (AscMap.mem_entries_iff.mpr hget) t ht

instance (m : Monitor) (key : Nat) (ctx : Int64) : Decidable (m.OwnedBy key ctx) :=
  decidable_of_iff _ ownedBy_iff.symm

namespace OwnedBy

variable {m : Monitor} {key : Nat} {ctx : Int64}

theorem holder?_eq (h : m.OwnedBy key ctx) (side : Side) :
    m.holder? key side ctx = if (m.stack ctx).HasAnchor key side then some ctx else none := by
  split
  · next hanchor => exact holder?_eq_self hanchor
  · next hanchor =>
    cases hholder : m.holder? key side ctx with
    | none => rfl
    | some owner =>
      obtain ⟨t, ht, hat⟩ := hasAnchor_of_holder? hholder
      have howner : owner = ctx := h owner t ht hat.1
      exact absurd ⟨t, howner ▸ ht, hat⟩ hanchor

theorem countAnchored_eq (h : m.OwnedBy key ctx) (side : Side) :
    m.countAnchored key side = (m.stack ctx).countAnchored key side := by
  have hnone : TxnStack.countAnchored (m.elsewhere ctx) key side = 0 := by
    apply TxnStack.countAnchored_eq_zero_iff.mpr
    rintro ⟨t, ht, hat⟩
    obtain ⟨c, hc, hmem⟩ := exists_of_mem_elsewhere ht
    exact hc (h c t hmem hat.1)
  rw [m.countAnchored_split ctx, hnone, Nat.add_zero]

end OwnedBy

/-! ### What an operation changes -/

/-- The lock `key` was changed by `g`, the stack of `ctx` got no anchors at other locks, `os` was
    brought forth, which counts for `δ`, and everything else is as it was. -/
structure Altered (key : Nat) (ctx : Int64) (m₀ m : Monitor) (g : Lock → Lock) (os : List Output)
    (δ : Stats) : Prop where
  locks : m.locks = m₀.locks.modify key g
  elsewhere : ∀ c, c ≠ ctx → m.stack c = m₀.stack c
  anchors : ∀ t ∈ m.stack ctx, t.lock = key ∨ ∃ u ∈ m₀.stack ctx, u.lock = t.lock
  next : m₀.txnIds.next ≤ m.txnIds.next
  outputs : m.outputs = m₀.outputs ++ os
  stats : m.stats = m₀.stats + δ
  skipEmpty : m.skipEmpty = m₀.skipEmpty

/-- One transaction was opened. -/
def openedOne : Stats := { Stats.zero with opened := 1 }

namespace Altered

variable {key : Nat} {ctx : Int64} {m₀ m : Monitor} {g : Lock → Lock} {os : List Output}
  {δ : Stats}

theorem refl (key : Nat) (ctx : Int64) (m : Monitor) : Altered key ctx m m id [] .zero where
  locks := (m.locks.modify_id key).symm
  elsewhere _ _ := rfl
  anchors t ht := Or.inr ⟨t, ht, rfl⟩
  next := Nat.le_refl _
  outputs := (List.append_nil _).symm
  stats := rfl
  skipEmpty := rfl

theorem report (h : Altered key ctx m₀ m g os δ) (i : Inconsistency) :
    Altered key ctx m₀ (m.report i) g (os ++ [.report i]) δ where
  locks := h.locks
  elsewhere := h.elsewhere
  anchors := h.anchors
  next := h.next
  outputs := by
    rw [← List.append_assoc, ← h.outputs]
    exact Journal.toList_outputs_add _ _
  stats := h.stats
  skipEmpty := h.skipEmpty

theorem modifyLock (h : Altered key ctx m₀ m g os δ) (f : Lock → Lock) :
    Altered key ctx m₀ (m.modifyLock key f) (f ∘ g) os δ where
  locks := by
    unfold Monitor.modifyLock
    rw [h.locks, LockStore.modify_modify]
  elsewhere := h.elsewhere
  anchors := h.anchors
  next := h.next
  outputs := h.outputs
  stats := h.stats
  skipEmpty := h.skipEmpty

theorem openTxn (h : Altered key ctx m₀ m g os δ) (side : Side) (time : UInt64) :
    Altered key ctx m₀ (m.openTxn key side ctx time) g os (δ + openedOne) where
  locks := h.locks
  elsewhere c hc := by
    rw [stack_openTxn, if_neg (Ne.symm hc)]
    exact h.elsewhere c hc
  anchors t ht := by
    rw [stack_openTxn, if_pos rfl] at ht
    rcases List.mem_cons.mp ht with rfl | ht
    · exact Or.inl rfl
    · exact h.anchors t ht
  next := Nat.le_succ_of_le h.next
  outputs := h.outputs
  stats := by
    rw [← Stats.add_assoc, ← h.stats]
    rfl
  skipEmpty := h.skipEmpty

theorem closeTxn (h : Altered key ctx m₀ m g os δ) (side : Side) (time : UInt64) (purge : Bool) :
    Altered key ctx m₀ (m.closeTxn key side ctx time purge).2 g
      (os ++ m.locks.unwindOutputs m.skipEmpty key side ctx time purge (m.stack ctx))
      (δ + .closing (m.locks.unwindOutputs m.skipEmpty key side ctx time purge (m.stack ctx))
        ((m.stack ctx).displaced key side)) where
  locks := by
    rw [locks_closeTxn]
    exact h.locks
  elsewhere c hc := by
    rw [stack_closeTxn, if_neg (Ne.symm hc)]
    exact h.elsewhere c hc
  anchors t ht := by
    rw [stack_closeTxn, if_pos rfl] at ht
    obtain ⟨u, hu, hlock, _⟩ := TxnStack.exists_of_mem_unwound ht
    rw [← hlock]
    exact h.anchors u hu
  next := by
    rw [next_closeTxn]
    exact Nat.le_add_right_of_le h.next
  outputs := by
    rw [outputs_closeTxn, ← List.append_assoc, ← h.outputs]
  stats := by
    rw [stats_closeTxn, ← Stats.add_assoc, ← h.stats]
  skipEmpty := by
    rw [skipEmpty_closeTxn]
    exact h.skipEmpty

theorem ownedBy (h : Altered key ctx m₀ m g os δ) {k : Nat} {c : Int64} (hm : m₀.OwnedBy k c)
    (hkey : k = key → c = ctx) : m.OwnedBy k c := by
  intro c' t ht hlock
  by_cases hc : c' = ctx
  · subst hc
    rcases h.anchors t ht with hanchor | ⟨u, hu, hanchor⟩
    · exact (hkey (hlock.symm.trans hanchor)).symm
    · exact hm _ u hu (hanchor.trans hlock)
  · rw [h.elsewhere c' hc] at ht
    exact hm c' t ht hlock

end Altered

/-- An operation on a lock of its own context changes nothing else. -/
theorem exists_altered_step {m : Monitor} {key : Nat} {t : Transition} (h : m.OwnedBy key t.ctx) :
    ∃ g os δ, Altered key t.ctx m (m.step key t).1 g os δ := by
  refine step_induction (P := fun m' => ∃ g os δ, Altered key t.ctx m m' g os δ) ?_ ?_ ?_ ?_
    ⟨id, [], .zero, .refl key t.ctx m⟩
  · rintro m' i _ ⟨g, os, δ, haltered⟩
    exact ⟨_, _, _, haltered.report i⟩
  · rintro m' f _ ⟨g, os, δ, haltered⟩
    exact ⟨_, _, _, haltered.modifyLock f⟩
  · rintro m' ⟨g, os, δ, haltered⟩
    exact ⟨_, _, _, haltered.openTxn t.op.side t.time⟩
  · rintro m' side owner purge ⟨g, os, δ, haltered⟩ ⟨u, hu, hanchor⟩
    have howner : owner = t.ctx := haltered.ownedBy h (fun _ => rfl) owner u hu hanchor.1
    rw [howner]
    exact ⟨_, _, _, haltered.closeTxn side t.time purge⟩

/-! ### The same operation on another monitor -/

/-- An operation on `key` in `ctx` meets the same in both monitors, except that `d` more numbers
    are handed out in the second. They may differ in the lock `other` and in other stacks. -/
structure Beside (key other : Nat) (ctx : Int64) (d : Nat) (m m' : Monitor) : Prop where
  ne : key ≠ other
  skipEmpty : m'.skipEmpty = m.skipEmpty
  locks : ∀ k, k ≠ other → m'.locks.get? k = m.locks.get? k
  stack : m'.stack ctx = m.stack ctx
  next : m'.txnIds.next = m.txnIds.next + d
  ids : ∀ t ∈ m.stack ctx, t.id < m.txnIds.next
  free : ∀ t ∈ m.stack ctx, t.lock ≠ other
  owned : m.OwnedBy key ctx
  owned' : m'.OwnedBy key ctx

/-- Two monitors have come from `m₀` and `m₀'` by the same changes, up to the numbers that were
    handed out. -/
structure Parallel (key : Nat) (ctx : Int64) (d : Nat) (m₀ m₀' m m' : Monitor) : Prop where
  next : m'.txnIds.next = m.txnIds.next + d
  altered : ∃ g os δ, Altered key ctx m₀ m g os δ ∧
    ∀ f, Shifts f d m₀.txnIds.next m.txnIds.next →
      Altered key ctx m₀' m' g (os.map (Output.rename f)) δ ∧
        m'.stack ctx = (m.stack ctx).map (Txn.rename f)

namespace Parallel

variable {key : Nat} {ctx : Int64} {d : Nat} {m₀ m₀' m m' : Monitor}

theorem report (hp : Parallel key ctx d m₀ m₀' m m') {i : Inconsistency}
    (hi : i.AboutOperation) : Parallel key ctx d m₀ m₀' (m.report i) (m'.report i) := by
  obtain ⟨g, os, δ, haltered, hall⟩ := hp.altered
  refine ⟨hp.next, g, _, δ, haltered.report i, ?_⟩
  intro f hf
  obtain ⟨haltered', hstack⟩ := hall f hf
  refine ⟨?_, hstack⟩
  have hsame : Output.rename f (.report i) = .report i := by
    cases i <;> first | rfl | exact hi.elim
  rw [List.map_append, List.map_singleton, hsame]
  exact haltered'.report i

theorem modifyLock (hp : Parallel key ctx d m₀ m₀' m m') (f : Lock → Lock) :
    Parallel key ctx d m₀ m₀' (m.modifyLock key f) (m'.modifyLock key f) := by
  obtain ⟨g, os, δ, haltered, hall⟩ := hp.altered
  refine ⟨hp.next, f ∘ g, os, δ, haltered.modifyLock f, ?_⟩
  intro f' hf
  obtain ⟨haltered', hstack⟩ := hall f' hf
  exact ⟨haltered'.modifyLock f, hstack⟩

theorem openTxn (hp : Parallel key ctx d m₀ m₀' m m') (side : Side) (time : UInt64) :
    Parallel key ctx d m₀ m₀' (m.openTxn key side ctx time) (m'.openTxn key side ctx time) := by
  obtain ⟨g, os, δ, haltered, hall⟩ := hp.altered
  refine ⟨?_, g, os, _, haltered.openTxn side time, ?_⟩
  · have hnext : m'.txnIds.next + 1 = m.txnIds.next + 1 + d := by
      rw [hp.next]
      omega
    exact hnext
  · intro f hf
    obtain ⟨haltered', hstack⟩ := hall f (hf.mono (Nat.le_succ _))
    refine ⟨haltered'.openTxn side time, ?_⟩
    have hnew : f m.txnIds.next = m'.txnIds.next := by
      rw [hp.next]
      exact hf.above _ haltered.next (Nat.lt_succ_self _)
    rw [stack_openTxn, stack_openTxn, if_pos rfl, if_pos rfl, List.map_cons, ← hstack, ← hnew]
    rfl

end Parallel

namespace Beside

variable {key other : Nat} {ctx : Int64} {d : Nat} {m₀ m₀' m m' : Monitor}

theorem parallel (h : Beside key other ctx d m₀ m₀') : Parallel key ctx d m₀ m₀' m₀ m₀' := by
  refine ⟨h.next, id, [], .zero, .refl key ctx m₀, ?_⟩
  intro f hf
  refine ⟨.refl key ctx m₀', ?_⟩
  rw [h.stack]
  exact (Txn.map_rename_eq_self fun t ht => hf.below t.id (h.ids t ht)).symm

theorem get?_eq (h : Beside key other ctx d m₀ m₀') (hp : Parallel key ctx d m₀ m₀' m m') {k : Nat}
    (hk : k ≠ other) : m'.locks.get? k = m.locks.get? k := by
  obtain ⟨g, os, δ, haltered, hall⟩ := hp.altered
  obtain ⟨haltered', _⟩ := hall _ (shifts_ite d _ _)
  rw [haltered.locks, haltered'.locks, LockStore.get?_modify, LockStore.get?_modify, h.locks k hk]

theorem sameView (h : Beside key other ctx d m₀ m₀') (hp : Parallel key ctx d m₀ m₀' m m') :
    SameView key ctx m m' := by
  have hget := h.get?_eq hp h.ne
  obtain ⟨g, os, δ, haltered, hall⟩ := hp.altered
  obtain ⟨haltered', hstack⟩ := hall _ (shifts_ite d _ _)
  have howned := haltered.ownedBy h.owned fun _ => rfl
  have howned' := haltered'.ownedBy h.owned' fun _ => rfl
  refine ⟨hget, ?_, ?_⟩
  · intro side
    rw [howned.holder?_eq, howned'.holder?_eq, hstack]
    simp only [TxnStack.hasAnchor_rename]
  · intro side
    rw [howned.countAnchored_eq, howned'.countAnchored_eq, hstack, TxnStack.countAnchored_rename]

theorem closeTxn (h : Beside key other ctx d m₀ m₀')
    (hp : Parallel key ctx d m₀ m₀' m m') (side : Side) (time : UInt64) (purge : Bool) :
    Parallel key ctx d m₀ m₀' (m.closeTxn key side ctx time purge).2
      (m'.closeTxn key side ctx time purge).2 := by
  have hget := fun k => h.get?_eq hp (k := k)
  obtain ⟨g, os, δ, haltered, hall⟩ := hp.altered
  have hfree : ∀ t ∈ m.stack ctx, t.lock ≠ other := by
    intro t ht
    rcases haltered.anchors t ht with hlock | ⟨u, hu, hlock⟩
    · rw [hlock]
      exact h.ne
    · rw [← hlock]
      exact h.free u hu
  refine ⟨?_, g, _, _, haltered.closeTxn side time purge, ?_⟩
  · obtain ⟨_, hstack⟩ := hall _ (shifts_ite d _ _)
    rw [next_closeTxn, next_closeTxn, hstack, TxnStack.displaced_rename, hp.next]
    omega
  · intro f hf
    rw [next_closeTxn] at hf
    obtain ⟨haltered', hstack⟩ := hall f (hf.mono (Nat.le_add_right _ _))
    have hskip : m'.skipEmpty = m.skipEmpty := by
      rw [haltered'.skipEmpty, haltered.skipEmpty, h.skipEmpty]
    have houtputs : m'.locks.unwindOutputs m'.skipEmpty key side ctx time purge (m'.stack ctx) =
        (m.locks.unwindOutputs m.skipEmpty key side ctx time purge (m.stack ctx)).map
          (Output.rename f) := by
      rw [hskip, hstack]
      exact LockStore.unwindOutputs_rename _ _ _ _ _ _ (hget key h.ne)
        fun t ht => hget t.lock (hfree t ht)
    have hclosed := haltered'.closeTxn side time purge
    rw [houtputs, Output.closing_rename, hstack, TxnStack.displaced_rename, ← List.map_append]
      at hclosed
    refine ⟨hclosed, ?_⟩
    rw [stack_closeTxn, stack_closeTxn, if_pos rfl, if_pos rfl, hstack, hp.next]
    apply TxnStack.unwound_rename
    intro i hlow hhigh
    exact hf.above i (Nat.le_trans haltered.next hlow) hhigh

/-- An operation does the same to both, and stops in both or in neither. -/
theorem step {t : Transition} (h : Beside key other t.ctx d m m') :
    Parallel key t.ctx d m m' (m.step key t).1 (m'.step key t).1 ∧
      (m'.step key t).2 = (m.step key t).2 := by
  have hrelates : Relates key t (Parallel key t.ctx d m m') :=
    { view := fun hp => h.sameView hp
      report := fun i hi hp => hp.report hi
      modifyLock := fun f hp => hp.modifyLock f
      openTxn := fun hp => hp.openTxn t.op.side t.time
      closeTxn := fun side owner purge hholder hp => by
        obtain ⟨g, os, δ, haltered, _⟩ := hp.altered
        obtain ⟨u, hu, hanchor⟩ := hasAnchor_of_holder? hholder
        have howner : owner = t.ctx :=
          (haltered.ownedBy h.owned fun _ => rfl) owner u hu hanchor.1
        rw [howner]
        exact h.closeTxn hp side t.time purge }
  exact hrelates.step h.parallel

/-- An operation on another lock in another context has been carried out in between. -/
theorem of_altered {g : Lock → Lock} {os : List Output} {δ : Stats} {c : Int64}
    (h : Altered other c m m' g os δ) (hkey : key ≠ other) (hctx : ctx ≠ c)
    (hids : ∀ t ∈ m.openTxns, t.id < m.txnIds.next) (howned : m.OwnedBy key ctx)
    (hother : m.OwnedBy other c) :
    Beside key other ctx (m'.txnIds.next - m.txnIds.next) m m' where
  ne := hkey
  skipEmpty := h.skipEmpty
  locks k hk := by rw [h.locks, LockStore.get?_modify, if_neg (Ne.symm hk)]
  stack := h.elsewhere ctx hctx
  next := (Nat.add_sub_cancel' h.next).symm
  ids t ht := hids t (mem_openTxns_iff.mpr ⟨ctx, ht⟩)
  free t ht hlock := hctx (hother ctx t ht hlock)
  owned := howned
  owned' := h.ownedBy howned fun heq => absurd heq hkey

end Beside

/-! ### Two operations -/

/-- Two monitors that have come from `m` agree, except that the numbers that were handed out on the
    way are renamed by `f`. -/
structure AgreesUpTo (f : Equiv.Perm Nat) (m ab ba : Monitor) : Prop where
  txnIds : ba.txnIds = ab.txnIds
  fixes : ∀ i, i < m.txnIds.next ∨ ab.txnIds.next ≤ i → f i = i
  locks : ba.locks = ab.locks
  stack : ∀ ctx, ba.stack ctx = (ab.stack ctx).map (Txn.rename f)
  stats : ba.stats = ab.stats
  counts : ∀ name, ba.journal.tally.count name = ab.journal.tally.count name

/-- If one operation leads from `m` to `a` and from `b` to `ba`, and the other one from `m` to `b`
    and from `a` to `ab`, the two orders come to the same, and each operation brings forth the
    same. -/
theorem Parallel.exists_agreesUpTo {m a b ab ba : Monitor} {k₁ k₂ : Nat} {c₁ c₂ : Int64}
    (h₁ : Parallel k₁ c₁ (b.txnIds.next - m.txnIds.next) m b a ba)
    (h₂ : Parallel k₂ c₂ (a.txnIds.next - m.txnIds.next) m a b ab) (hkey : k₁ ≠ k₂) (hctx : c₁ ≠ c₂)
    (hids : ∀ t ∈ m.openTxns, t.id < m.txnIds.next) (hcounts : ab.journal.Counts)
    (hcounts' : ba.journal.Counts) :
    ∃ (f : Equiv.Perm Nat) (os₁ os₂ : List Output), AgreesUpTo f m ab ba ∧
      a.outputs = m.outputs ++ os₁ ∧ ab.outputs = a.outputs ++ os₂ ∧
      b.outputs = m.outputs ++ os₂.map (Output.rename f) ∧
      ba.outputs = b.outputs ++ os₁.map (Output.rename f) := by
  have hnext₁ := h₁.next
  have hnext₂ := h₂.next
  obtain ⟨g₁, os₁, δ₁, ha, hba⟩ := h₁.altered
  obtain ⟨g₂, os₂, δ₂, hb, hab⟩ := h₂.altered
  have hlow₁ := ha.next
  have hlow₂ := hb.next
  let f := swapRuns m.txnIds.next (a.txnIds.next - m.txnIds.next) (b.txnIds.next - m.txnIds.next)
  obtain ⟨hba, hstack₁⟩ := hba f ((shifts_swapRuns _ _ _).mono (by omega))
  obtain ⟨hab, hstack₂⟩ := hab f.symm ((shifts_swapRuns_symm _ _ _).mono (by omega))
  have hfixes : ∀ i, i < m.txnIds.next ∨ ab.txnIds.next ≤ i → f i = i := by
    intro i hi
    exact swapRuns_eq_self _ _ _ (by omega)
  have houtputs₂ : (os₂.map (Output.rename f.symm)).map (Output.rename f) = os₂ :=
    Output.map_rename_of_inverse f.apply_symm_apply os₂
  refine ⟨f, os₁, os₂.map (Output.rename f.symm), ⟨?_, hfixes, ?_, ?_, ?_, ?_⟩, ha.outputs,
    hab.outputs, ?_, hba.outputs⟩
  · have hnext : ba.txnIds.next = ab.txnIds.next := by omega
    exact congrArg Counter.mk hnext
  · rw [hba.locks, hb.locks, hab.locks, ha.locks, LockStore.modify_comm _ _ _ hkey]
  · intro c
    by_cases hc₁ : c = c₁
    · rw [hc₁, hstack₁, hab.elsewhere c₁ hctx]
    · rw [hba.elsewhere c hc₁]
      by_cases hc₂ : c = c₂
      · rw [hc₂, hstack₂, Txn.map_rename_of_inverse f.apply_symm_apply]
      · rw [hb.elsewhere c hc₂, hab.elsewhere c hc₂, ha.elsewhere c hc₁]
        refine (Txn.map_rename_eq_self fun t ht => hfixes t.id (Or.inl ?_)).symm
        exact hids t (mem_openTxns_iff.mpr ⟨c, ht⟩)
  · rw [hba.stats, hb.stats, hab.stats, ha.stats, Stats.add_right_comm]
  · intro name
    have hcount : ab.journal.tally.count name = ab.outputs.countP (Output.hasName name) :=
      hcounts name
    have hcount' : ba.journal.tally.count name = ba.outputs.countP (Output.hasName name) :=
      hcounts' name
    rw [hcount, hcount', hba.outputs, hb.outputs, hab.outputs, ha.outputs]
    simp only [List.countP_append, Output.countP_hasName_rename]
    omega
  · rw [houtputs₂]
    exact hb.outputs

/-- After any calls, two operations on different locks in different contexts, each of which has the
    transactions of its lock to itself, come to the same in both orders: no operation is the last
    one, and the results agree up to the numbers that were handed out, and so do the outputs of
    each operation. -/
theorem step_comm_of_calls (skipEmpty : Bool) (cs : List Call) {k₁ k₂ : Nat} {t₁ t₂ : Transition}
    (hkey : k₁ ≠ k₂) (hctx : t₁.ctx ≠ t₂.ctx)
    (h₁ : ((Monitor.initial skipEmpty).calls cs).OwnedBy k₁ t₁.ctx)
    (h₂ : ((Monitor.initial skipEmpty).calls cs).OwnedBy k₂ t₂.ctx) :
    let m := (Monitor.initial skipEmpty).calls cs
    let a := m.step k₁ t₁
    let b := m.step k₂ t₂
    let ab := a.1.step k₂ t₂
    let ba := b.1.step k₁ t₁
    (a.2 = none ∧ ab.2 = none ∧ b.2 = none ∧ ba.2 = none) ∧
    ∃ (f : Equiv.Perm Nat) (os₁ os₂ : List Output), AgreesUpTo f m ab.1 ba.1 ∧
      a.1.outputs = m.outputs ++ os₁ ∧ ab.1.outputs = a.1.outputs ++ os₂ ∧
      b.1.outputs = m.outputs ++ os₂.map (Output.rename f) ∧
      ba.1.outputs = b.1.outputs ++ os₁.map (Output.rename f) := by
  intro m a b ab ba
  have hone : m.OneSided := ((InStep.initial skipEmpty).calls cs).oneSided
  have hconserved : m.Conserved := (HeldOnce.stable.calls (fun ctx h => h.countAccess ctx)
    (.initial skipEmpty) cs).conserved
  have hcounts : m.journal.Counts :=
    counts_stable.calls (fun _ h => h) (fun _ => rfl) cs
  have hids : ∀ t ∈ m.openTxns, t.id < m.txnIds.next := fun t ht => hconserved.id_lt ht
  obtain ⟨_, _, _, ha⟩ := exists_altered_step (t := t₁) h₁
  obtain ⟨_, _, _, hb⟩ := exists_altered_step (t := t₂) h₂
  have hfirst : Parallel k₁ t₁.ctx (b.1.txnIds.next - m.txnIds.next) m b.1 a.1 ba.1 :=
    (Beside.of_altered hb hkey hctx hids h₁ h₂).step.1
  have hsecond : Parallel k₂ t₂.ctx (a.1.txnIds.next - m.txnIds.next) m a.1 b.1 ab.1 :=
    (Beside.of_altered ha hkey.symm hctx.symm hids h₂ h₁).step.1
  have hkept : ∀ k t {m' : Monitor}, m'.journal.Counts → (m'.step k t).1.journal.Counts :=
    fun k t _ h => counts_stable.step h k t
  refine ⟨⟨(hone.step k₁ t₁).2, ((hone.step k₁ t₁).1.step k₂ t₂).2, (hone.step k₂ t₂).2,
    ((hone.step k₂ t₂).1.step k₁ t₁).2⟩, ?_⟩
  exact hfirst.exists_agreesUpTo hsecond hkey hctx hids (hkept k₂ t₂ (hkept k₁ t₁ hcounts))
    (hkept k₁ t₁ (hkept k₂ t₂ hcounts))

/-- Two contexts hold two locks each, and access memory. -/
def twoHoldsEach : List Call :=
  [.locate 0x100 "spinlock_t" 0 fun _ => ⟨none, none⟩,
    .operate 1 ⟨.acquire .writer, 1, 1, Site.unknown, 0, .none, 0⟩,
    .locate 0x200 "spinlock_t" 0 fun _ => ⟨none, none⟩,
    .operate 2 ⟨.acquire .writer, 2, 2, Site.unknown, 0, .none, 0⟩,
    .locate 0x300 "mutex" 0 fun _ => ⟨none, none⟩,
    .operate 3 ⟨.acquire .writer, 1, 3, Site.unknown, 0, .none, 0⟩,
    .locate 0x400 "mutex" 0 fun _ => ⟨none, none⟩,
    .operate 4 ⟨.acquire .writer, 2, 4, Site.unknown, 0, .none, 0⟩,
    .countAccess 1,
    .countAccess 2]

/-- The outer lock of a context is released. -/
def outerRelease (ctx : Int64) : Transition :=
  ⟨.release .writer, ctx, 5, Site.unknown, 0, .none, 0⟩

theorem step_comm_of_outerReleases :
    let m := (Monitor.initial false).calls twoHoldsEach
    let ab := ((m.step 1 (outerRelease 1)).1.step 2 (outerRelease 2)).1
    let ba := ((m.step 2 (outerRelease 2)).1.step 1 (outerRelease 1)).1
    (ab.stack 1).map Txn.id = [5] ∧ (ba.stack 1).map Txn.id = [6] ∧
      ab.journal.txnRowIds = [3, 1, 4, 2] ∧ ba.journal.txnRowIds = [4, 2, 3, 1] ∧
      ∃ f, AgreesUpTo f m ab ba := by
  have hkey : 1 ≠ 2 := by decide
  have hctx : (outerRelease 1).ctx ≠ (outerRelease 2).ctx := by decide
  obtain ⟨_, f, _, _, hagrees, _⟩ :=
    step_comm_of_calls false twoHoldsEach hkey hctx (by decide +kernel) (by decide +kernel)
  exact ⟨by decide +kernel, by decide +kernel, by decide +kernel, by decide +kernel, f, hagrees⟩

end Monitor

end LockTrace
