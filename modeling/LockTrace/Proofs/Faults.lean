import LockTrace.Proofs.Mirrors

/-!
# Which operations are reported

What an operation reports is spread over the ways in which it is made up for: the counts of the
lock are asked, its positions, and the stacks of all contexts. As long as these agree, the lock
alone decides (`Lock.faults`), and what it finds are exactly the operations that no sound trace
has (`Lock.faults_ne_nil_iff`). On the way transactions are closed, and this adds nothing: a
transaction whose lock is live is backed by it, and no other side of the lock is in the way
(`faults_unwindOutputs`). Only a reader that takes a lock from a writer with several holds
finds more to report, one for each hold that is left below another.

A transaction may also belong to a lock that was freed while it was held. That its lock is gone
is reported whenever the transaction is closed or lies below one that is, also by an operation
in which nothing is wrong. These reports are left aside here.
-/

namespace LockTrace

/-! ### What a lock finds wrong -/

namespace Lock

/-- The faults of an operation, by the state of its lock. Whether the lock has the side is
    asked first, and if it has not, nothing else is. -/
def faults (l : Lock) (t : Transition) : List OperationFault :=
  if l.kind.supports t.op.side then
    match t.op with
    | .acquire side =>
      if 0 < l.count side.other then [.otherSideHeld]
      else if side = .writer ∧ 0 < l.writers ∧ t.flags &&& 1 = 0 then [.alreadyHeld]
      else []
    | .release side =>
      if l.count side = 0 then
        [if l.history = [] then .emptyHistory else .noRunningTxn, .alreadyReleased]
      else []
  else [.unsupportedSide]

/-- The operation does not fit the lock. -/
inductive Refuses (l : Lock) (t : Transition) : Prop
  | unsupported (h : l.kind.supports t.op.side = false)
  | otherSideHeld (hop : t.op.isAcquire = true) (h : 0 < l.count t.op.side.other)
  | alreadyHeld (hop : t.op = .acquire .writer) (h : 0 < l.writers) (hflag : t.flags &&& 1 = 0)
  | alreadyReleased (hop : t.op.isAcquire = false) (h : l.count t.op.side = 0)

theorem faults_ne_nil_iff (l : Lock) (t : Transition) : l.faults t ≠ [] ↔ l.Refuses t := by
  unfold faults
  constructor
  · intro h
    split at h
    · split at h
      · next side hop =>
        split at h
        · next hpos => exact .otherSideHeld (by rw [hop]; rfl) (by rw [hop]; exact hpos)
        · split at h
          · next hheld =>
            obtain ⟨rfl, hpos, hflag⟩ := hheld
            exact .alreadyHeld hop hpos hflag
          · exact absurd rfl h
      · next side hop =>
        split at h
        · next hzero => exact .alreadyReleased (by rw [hop]; rfl) (by rw [hop]; exact hzero)
        · exact absurd rfl h
    · next hkind => exact .unsupported (Bool.eq_false_iff.mpr hkind)
  · intro h
    cases h with
    | unsupported hkind => simp [hkind]
    | otherSideHeld hop hpos =>
      cases ht : t.op with
      | release side => simp [ht, LockOp.isAcquire] at hop
      | acquire side =>
        rw [ht] at hpos
        simp only [if_pos (show 0 < l.count side.other from hpos)]
        split <;> simp
    | alreadyHeld hop hpos hflag =>
      simp only [hop, hpos, hflag, and_self, if_true]
      split
      · split <;> simp
      · simp
    | alreadyReleased hop hzero =>
      cases ht : t.op with
      | acquire side => simp [ht, LockOp.isAcquire] at hop
      | release side =>
        rw [ht] at hzero
        simp only [if_pos (show l.count side = 0 from hzero)]
        split <;> simp

end Lock

/-! ### Reports but those on freed locks -/

/-- The report that an output is, unless it says that a lock is gone. -/
def Output.fault? : Output → Option Inconsistency
  | .report (.danglingLock ..) => none
  | .report i => some i
  | _ => none

namespace LockStore

/-- If its lock is live, the lock backs the transaction. -/
def Grounds (locks : LockStore) (t : Txn) : Prop :=
  ∀ lock, locks.get? t.lock = some lock → locks.Backs t

variable {locks : LockStore}

theorem Grounds.of_anchor {t u : Txn} (h : locks.Grounds t) (hlock : t.lock = u.lock)
    (hside : t.side = u.side) : locks.Grounds u := by
  intro lock hget
  exact (h lock (hlock ▸ hget)).of_anchor hlock hside

theorem faults_heldOutputs {s : List Txn} (hs : ∀ t ∈ s, locks.Grounds t) (txn : Nat)
    (time : UInt64) (seen : List Nat) :
    (locks.heldOutputs txn time seen s).filterMap Output.fault? = [] := by
  induction s generalizing seen with
  | nil => rfl
  | cons t ts ih =>
    have hts : ∀ seen, (locks.heldOutputs txn time seen ts).filterMap Output.fault? = [] :=
      ih fun u hu => hs u (List.mem_cons_of_mem _ hu)
    cases hget : locks.get? t.lock with
    | none =>
      simp only [heldOutputs, hget]
      rw [List.filterMap_cons_none rfl]
      exact hts seen
    | some lock =>
      obtain ⟨lock', id, hget', hheld, hhistory, hid⟩ := hs t List.mem_cons_self lock hget
      rw [hget] at hget'
      cases hget'
      obtain ⟨latest, older, hpositions⟩ := List.exists_cons_of_ne_nil hhistory
      simp only [heldOutputs, hget, hheld, if_true, hpositions, hid]
      split
      · exact hts seen
      · rw [List.filterMap_cons_none rfl]
        exact hts (id :: seen)

theorem faults_closeOutputs {top : Txn} {below : TxnStack}
    (hs : ∀ t ∈ top :: below, locks.Grounds t) (skipEmpty : Bool) (time : UInt64) :
    (locks.closeOutputs skipEmpty time top below).filterMap Output.fault? = [] := by
  have hrev : ∀ t ∈ (top :: below).reverse, locks.Grounds t := by
    intro t ht
    exact hs t (List.mem_reverse.mp ht)
  unfold closeOutputs
  split
  · rfl
  · rw [List.filterMap_cons, faults_heldOutputs hrev]
    rfl

theorem faults_purgeOutputs (key : Nat) (ctx : Int64) (time : UInt64) (s : TxnStack) :
    (locks.purgeOutputs key ctx time s).filterMap Output.fault? =
      List.replicate (s.countAnchored key .writer)
        (.multipleWriterTxns (locks.describe key .writer) time ctx) := by
  have hremarks : ∀ ts : List Txn,
      ts.filterMap (Output.fault? ∘ fun t => Output.remark (.purged t.id ctx time)) = [] := by
    intro ts
    exact List.filterMap_eq_nil_iff.mpr fun _ _ => rfl
  have hreports : ∀ ts : List Txn, ts.filterMap (Output.fault? ∘ fun _ =>
      Output.report (.multipleWriterTxns (locks.describe key .writer) time ctx)) =
      List.replicate ts.length (.multipleWriterTxns (locks.describe key .writer) time ctx) := by
    intro ts
    induction ts with
    | nil => rfl
    | cons t ts ih => simp [List.replicate_succ, ← ih, Output.fault?]
  unfold purgeOutputs TxnStack.countAnchored
  rw [List.filterMap_append, List.filterMap_map, List.filterMap_map, hremarks, hreports,
    List.nil_append, List.countP_eq_length_filter]

/-- Closing transactions reports nothing but the holds of a writer that are left when one of
    them is taken away. -/
theorem faults_unwindOutputs {key : Nat} {side : Side} {s : TxnStack}
    (hs : ∀ t ∈ s, locks.Grounds t) (hother : s.countAnchored key side.other = 0)
    (skipEmpty : Bool) (ctx : Int64) (time : UInt64) (purge : Bool) :
    (locks.unwindOutputs skipEmpty key side ctx time purge s).filterMap Output.fault? =
      List.replicate (if purge ∧ side = .writer then s.countAnchored key side - 1 else 0)
        (.multipleWriterTxns (locks.describe key .writer) time ctx) := by
  induction s with
  | nil => simp [unwindOutputs]
  | cons top below ih =>
    rw [TxnStack.countAnchored_cons] at hother ⊢
    have hbelow := ih (fun t ht => hs t (List.mem_cons_of_mem _ ht)) (by omega)
    rw [unwindOutputs, List.filterMap_append, faults_closeOutputs hs, List.nil_append]
    by_cases hanchor : top.AnchoredAt key side
    · rw [if_pos hanchor, if_pos hanchor]
      cases purge with
      | false => simp
      | true =>
        simp only [if_true, true_and, faults_purgeOutputs, Nat.add_sub_cancel]
        cases side with
        | writer => simp
        | reader =>
          -- the other side of a reader is the writer's, and it has no transaction
          have hnone : TxnStack.countAnchored below key .writer = 0 := by
            simp only [Side.other] at hother
            omega
          simp [hnone]
    · have hmismatch : locks.mismatchOutputs key time top = [] := by
        unfold mismatchOutputs
        split
        · next hkey =>
          have hside : top.side = side.other :=
            Side.eq_other_of_ne fun h => hanchor ⟨hkey, h⟩
          rw [if_pos ⟨hkey, hside⟩] at hother
          omega
        · rfl
      rw [if_neg hanchor, if_neg hanchor, hmismatch, List.nil_append, Nat.add_zero]
      exact hbelow

end LockStore

namespace Monitor

/-- All reports so far but those on freed locks. -/
def faults (m : Monitor) : List Inconsistency := m.outputs.filterMap Output.fault?

def Grounded (m : Monitor) : Prop := ∀ t ∈ m.openTxns, m.locks.Grounds t

theorem InStep.grounded {m : Monitor} (h : m.InStep) : m.Grounded :=
  fun _ ht _ hget => h.backs ht hget

@[simp] theorem faults_report_mismatch (m : Monitor) (t : Transition) (fault : OperationFault)
    (lock : String) :
    (m.report (t.mismatch fault lock)).faults = m.faults ++ [t.mismatch fault lock] := by
  have houtputs : (m.report (t.mismatch fault lock)).outputs =
      m.outputs ++ [.report (t.mismatch fault lock)] := Journal.toList_outputs_add _ _
  unfold faults
  rw [houtputs, List.filterMap_append]
  rfl

@[simp] theorem faults_modifyLock (m : Monitor) (key : Nat) (f : Lock → Lock) :
    (m.modifyLock key f).faults = m.faults := rfl

@[simp] theorem faults_beginHold (m : Monitor) (key : Nat) (t : Transition) :
    (m.beginHold key t).faults = m.faults := rfl

theorem Grounded.closeTxn {m : Monitor} (h : m.Grounded) (key : Nat) (side : Side) (ctx : Int64)
    (time : UInt64) (purge : Bool) : (m.closeTxn key side ctx time purge).2.Grounded := by
  intro t ht
  obtain ⟨u, hu, hlock, hside⟩ := exists_of_mem_openTxns_closeTxn ht
  rw [locks_closeTxn]
  exact (h u hu).of_anchor hlock hside

/-! ### Closing transactions -/

section Close

variable {m : Monitor} {key : Nat} {side : Side}

theorem faults_closeTxn (hm : m.Grounded) (hother : m.countAnchored key side.other = 0)
    (ctx : Int64) (time : UInt64) (purge : Bool) :
    (m.closeTxn key side ctx time purge).2.faults = m.faults ++
      List.replicate
        (if purge ∧ side = .writer then (m.stack ctx).countAnchored key side - 1 else 0)
        (.multipleWriterTxns (m.locks.describe key .writer) time ctx) := by
  have hstack : ∀ t ∈ m.stack ctx, m.locks.Grounds t := by
    intro t ht
    exact hm t (mem_openTxns_iff.mpr ⟨ctx, ht⟩)
  have hnone : (m.stack ctx).countAnchored key side.other = 0 := by
    have hle := m.countAnchored_stack_le ctx key side.other
    omega
  unfold faults
  rw [outputs_closeTxn, List.filterMap_append, LockStore.faults_unwindOutputs hstack hnone]

/-- Without purging, a transaction is closed in silence. -/
theorem faults_closeTxn_keep (hm : m.Grounded) (hother : m.countAnchored key side.other = 0)
    (ctx : Int64) (time : UInt64) :
    (m.closeTxn key side ctx time false).2.faults = m.faults := by
  rw [faults_closeTxn hm hother]
  simp

end Close

/-- One side of a lock is taken away from its holders: they become fewer, and what is reported
    are holds of a writer that has several. -/
structure TakesAway (m m' : Monitor) (key : Nat) (side : Side) (time : UInt64) : Prop where
  locks : m'.locks = m.locks
  grounded : m'.Grounded
  other : m'.countAnchored key side.other = 0
  fewer : m'.countAnchored key side ≤ m.countAnchored key side
  faults : ∃ extra, m'.faults = m.faults ++ extra ∧ ∀ i ∈ extra, side = .writer ∧
    1 < m.countAnchored key side ∧
      ∃ ctx, i = .multipleWriterTxns (m.locks.describe key .writer) time ctx

namespace TakesAway

variable {m m' : Monitor} {key : Nat} {side : Side} {time : UInt64}

theorem refl (hm : m.Grounded) (hother : m.countAnchored key side.other = 0) :
    m.TakesAway m key side time where
  locks := rfl
  grounded := hm
  other := hother
  fewer := Nat.le_refl _
  faults := ⟨[], (List.append_nil _).symm, by simp⟩

theorem closeTxn (h : m.TakesAway m' key side time) (owner : Int64) :
    m.TakesAway (m'.closeTxn key side owner time true).2 key side time where
  locks := by
    rw [locks_closeTxn]
    exact h.locks
  grounded := h.grounded.closeTxn key side owner time true
  other := countAnchored_closeTxn_eq_zero h.other side owner time true
  fewer := by
    have hunwound := TxnStack.countAnchored_unwound_le key side time true m'.txnIds.next
      (m'.stack owner) key side
    have hsplit := m'.countAnchored_split owner key side
    have hfewer := h.fewer
    rw [countAnchored_closeTxn]
    omega
  faults := by
    obtain ⟨extra, heq, hextra⟩ := h.faults
    refine ⟨_, by rw [faults_closeTxn h.grounded h.other, heq, List.append_assoc], ?_⟩
    intro i hi
    rcases List.mem_append.mp hi with hi | hi
    · exact hextra i hi
    · obtain ⟨hne, rfl⟩ := List.mem_replicate.mp hi
      split at hne
      · next hwriter =>
        have hle := m'.countAnchored_stack_le owner key side
        have hfewer := h.fewer
        rw [h.locks]
        exact ⟨hwriter.2, by omega, owner, rfl⟩
      · exact absurd rfl hne

end TakesAway

/-! ### Making up for what was missed -/

section Operation

variable {m : Monitor} {key : Nat} {lock : Lock} {t : Transition}

/-- The side that is taken away has a transaction to close, and as many as it has positions. -/
theorem faults_preempt (hm : m.InStep) (hget : m.locks.get? key = some lock)
    (hfree : lock.count t.op.side = 0) (hheld : 0 < lock.count t.op.side.other) :
    ∃ extra, (m.preempt key lock t).faults =
        m.faults ++ (t.mismatch .otherSideHeld (lock.describe t.op.side) :: extra) ∧
      ∀ i ∈ extra, t.op.side = .reader ∧ 1 < lock.writers ∧
        ∃ ctx, i = .multipleWriterTxns (lock.describe .writer) t.time ctx := by
  have hnone := hm.counts key lock hget t.op.side
  have hsome := hm.counts key lock hget t.op.side.other
  have hlength := (hm.tracked key lock hget).length
  have hlive : (m.evict key lock t).locks.get? key = some lock := by
    rw [locks_evict, hget]
  have hresidual : lock.residual t.op.side.other = 0 := by
    rw [lock.readers_add_writers t.op.side] at hlength
    unfold Lock.residual
    omega
  obtain ⟨m₁, m₂, hm₁, hevict, hcases⟩ := m.evict_cases key lock t
  have hsame : ∀ side, m₁.countAnchored key side = m.countAnchored key side := by
    intro side
    rw [hm₁]
    rfl
  have hfirst : m₁.TakesAway m₁ key t.op.side.other t.time := by
    apply TakesAway.refl
    · rw [hm₁]
      exact (hm.report _).grounded
    · rw [Side.other_other, hsame, ← hnone, hfree]
  have htakes : m₁.TakesAway (m.evict key lock t) key t.op.side.other t.time := by
    rw [hevict]
    apply closeSide_induction (P := fun m' => m₁.TakesAway m' key t.op.side.other t.time)
    · intro m' owner h _
      exact h.closeTxn owner
    · rcases hcases with ⟨owner, _, hm₂⟩ | ⟨hzero, _⟩
      · rw [hm₂]
        exact hfirst.closeTxn owner
      · rw [hsame, ← hsome] at hzero
        omega
  obtain ⟨extra, heq, hextra⟩ := htakes.faults
  refine ⟨extra, ?_, ?_⟩
  · rw [preempt_of_get? hlive, if_pos hresidual, faults_modifyLock, heq, hm₁,
      faults_report_mismatch, List.append_assoc]
    rfl
  · intro i hi
    obtain ⟨hwriter, hmany, ctx, rfl⟩ := hextra i hi
    have hreader : t.op.side = .reader := by
      rw [← Side.other_other t.op.side, hwriter]
      rfl
    rw [hsame, ← hsome, hwriter] at hmany
    refine ⟨hreader, hmany, ctx, ?_⟩
    have hlocks : m₁.locks.get? key = some lock := by
      rw [hm₁]
      exact hget
    unfold LockStore.describe
    rw [hlocks]
    rfl

theorem faults_missedRelease (hm : m.InStep) (hget : m.locks.get? key = some lock)
    (hfree : lock.count t.op.side.other = 0) :
    (m.missedRelease key lock t).faults =
      m.faults ++ [t.mismatch .alreadyHeld (lock.describe t.op.side)] := by
  have hnone := hm.counts key lock hget t.op.side.other
  obtain ⟨m₁, hm₁, ⟨owner, _, _, heq⟩ | ⟨_, heq⟩⟩ := m.missedRelease_cases key lock t
  · have hother : m₁.countAnchored key t.op.side.other = 0 := by
      rw [hm₁]
      exact hnone.symm.trans hfree
    have hgrounded : m₁.Grounded := by
      rw [hm₁]
      exact (hm.report _).grounded
    rw [heq, faults_modifyLock, faults_closeTxn_keep hgrounded hother, hm₁,
      faults_report_mismatch]
  · rw [heq, hm₁, faults_report_mismatch]

theorem faults_release (hm : m.InStep) (hget : m.locks.get? key = some lock) :
    (m.release key lock t).faults = m.faults ++
      (if lock.count t.op.side = 0 then
        [if lock.history = [] then .emptyHistory else .noRunningTxn, .alreadyReleased]
      else []).map (t.mismatch · (lock.describe t.op.side)) := by
  have hcount := hm.counts key lock hget t.op.side
  by_cases hzero : lock.count t.op.side = 0
  · rw [release_eq, if_pos hzero, if_pos hzero, closeReleased_of_free (hcount.symm.trans hzero)]
    simp
  · have hheld := Nat.pos_of_ne_zero hzero
    have hfree := (hm.oneSided key lock hget).exclusive t.op.side hheld
    rw [hm.counts key lock hget] at hfree
    obtain ⟨owner, _, heq⟩ := hm.release_of_held hget hheld
    rw [if_neg hzero, heq, faults_modifyLock, faults_modifyLock,
      faults_closeTxn_keep hm.grounded hfree, List.map_nil, List.append_nil]

theorem faults_acquire {side : Side} (hm : m.InStep) (hget : m.locks.get? key = some lock)
    (hop : t.op = .acquire side) (hflags : lock.flags = t.flags) :
    ∃ extra, (m.acquire key lock t).1.faults = m.faults ++
        ((if 0 < lock.count side.other then [.otherSideHeld]
          else if side = .writer ∧ 0 < lock.writers ∧ t.flags &&& 1 = 0 then [.alreadyHeld]
          else []).map (t.mismatch · (lock.describe t.op.side)) ++ extra) ∧
      ∀ i ∈ extra, side = .reader ∧ 1 < lock.writers ∧
        ∃ ctx, i = .multipleWriterTxns (lock.describe .writer) t.time ctx := by
  have hside : t.op.side = side := by
    rw [hop]
    rfl
  have hrecursive : lock.isRecursive = (t.flags &&& 1 != 0) := by
    rw [← hflags]
    rfl
  have hcases := m.acquire_cases key lock t
  rw [hside] at hcases ⊢
  rcases hcases with
    ⟨hpos, hheld, _⟩ | ⟨hfree, hheld, heq⟩ | ⟨hwriter, hpos, hfree, hrec, heq⟩ | ⟨hfree, hrec, heq⟩
  · have hzero := (hm.oneSided key lock hget).exclusive side hpos
    omega
  · rw [← hside] at hfree hheld
    obtain ⟨extra, hfaults, hextra⟩ := faults_preempt hm hget hfree hheld
    rw [hside] at hheld hfaults hextra
    refine ⟨extra, ?_, hextra⟩
    rw [heq, if_pos hheld, faults_beginHold, hfaults]
    rfl
  · have hflag : t.flags &&& 1 = 0 := by simpa [hrecursive] using hrec
    rw [hwriter] at hpos
    refine ⟨[], ?_, by simp⟩
    rw [heq, if_neg (by omega), if_pos ⟨hwriter, hpos, hflag⟩, faults_beginHold,
      faults_missedRelease hm hget (by rw [hside]; exact hfree), hside]
    simp
  · have hnot : ¬ (side = .writer ∧ 0 < lock.writers ∧ t.flags &&& 1 = 0) := by
      rintro ⟨rfl, hpos, hflag⟩
      have htrue := hrec rfl hpos
      simp [hrecursive, hflag] at htrue
    refine ⟨[], ?_, by simp⟩
    rw [heq, if_neg (by omega), if_neg hnot, faults_beginHold]
    simp

/-! ### One operation -/

/-- The reports on an operation are those of the faults that its lock finds, and of the holds
    that are left when a writer with several loses them to a reader. -/
theorem faults_step (hm : m.InStep) (hget : m.locks.get? key = some lock) (t : Transition) :
    ∃ extra, (m.step key t).1.faults = m.faults ++
        ((lock.faults t).map (t.mismatch · (lock.describe t.op.side)) ++ extra) ∧
      ∀ i ∈ extra, t.op = .acquire .reader ∧ 1 < lock.writers ∧
        ∃ ctx, i = .multipleWriterTxns (lock.describe .writer) t.time ctx := by
  rcases m.step_cases key t with ⟨hnone, _⟩ | ⟨lock₀, lock₁, m₁, hget', hlock₁, hm₁, hcases⟩
  · rw [hget] at hnone
    cases hnone
  rw [hget] at hget'
  cases hget'
  have hflags : m₁.InStep := by
    rw [hm₁]
    exact hm.setFlags key t.flags
  have hlive : m₁.locks.get? key = some lock₁ := by
    rw [hm₁, hlock₁]
    exact LockStore.get?_modify_self _ hget
  have hbefore : m₁.faults = m.faults := by
    rw [hm₁]
    rfl
  have hkind : lock₁.kind = lock.kind := by
    rw [hlock₁]
    rfl
  have hdescribe : lock₁.describe = lock.describe := by
    rw [hlock₁]
    rfl
  have hfaults : lock.faults t = lock₁.faults t := by
    rw [hlock₁]
    rfl
  have hwriters : lock₁.writers = lock.writers := by
    rw [hlock₁]
    rfl
  rw [hfaults, ← hdescribe, ← hbefore, ← hwriters]
  unfold Lock.faults
  rcases hcases with ⟨hsupports, hacquire, heq⟩ | ⟨hsupports, hrelease, heq⟩ | ⟨hsupports, heq⟩
  · cases hop : t.op with
    | release side =>
      rw [hop] at hacquire
      cases hacquire
    | acquire side =>
      obtain ⟨extra, hnew, hextra⟩ := faults_acquire hflags hlive hop (by rw [hlock₁]; rfl)
      rw [hop] at hsupports hnew
      refine ⟨extra, ?_, ?_⟩
      · rw [heq, hnew, if_pos hsupports]
      · intro i hi
        obtain ⟨rfl, hrest⟩ := hextra i hi
        exact ⟨rfl, hrest⟩
  · cases hop : t.op with
    | acquire side =>
      rw [hop] at hrelease
      cases hrelease
    | release side =>
      have hnew := faults_release (t := t) hflags hlive
      rw [hop] at hsupports hnew
      refine ⟨[], ?_, by simp⟩
      rw [heq, hnew, if_pos hsupports, List.append_nil]
      rfl
  · refine ⟨[], ?_, by simp⟩
    rw [heq, if_neg (by simp [hsupports])]
    simp

end Operation

/-! ### Every sequence of calls -/

/-- After any calls, an operation on a live lock reports exactly the faults that the lock finds,
    and with the first of two or more holds that a writer loses to a reader also those that are
    left. So a report there is exactly if the operation does not fit the lock. -/
theorem faults_of_calls (skipEmpty : Bool) (cs : List Call) {key : Nat} {lock : Lock}
    (hget : ((Monitor.initial skipEmpty).calls cs).locks.get? key = some lock) (t : Transition) :
    let m := (Monitor.initial skipEmpty).calls cs
    (∃ extra, (m.step key t).1.faults = m.faults ++
        ((lock.faults t).map (t.mismatch · (lock.describe t.op.side)) ++ extra) ∧
      ∀ i ∈ extra, t.op = .acquire .reader ∧ 1 < lock.writers ∧
        ∃ ctx, i = .multipleWriterTxns (lock.describe .writer) t.time ctx) ∧
    ((m.step key t).1.faults ≠ m.faults ↔ lock.Refuses t) := by
  obtain ⟨extra, heq, hextra⟩ := faults_step ((InStep.initial skipEmpty).calls cs) hget t
  refine ⟨⟨extra, heq, hextra⟩, ?_⟩
  rw [heq, Ne, List.append_right_eq_self, List.append_eq_nil_iff, List.map_eq_nil_iff,
    ← Lock.faults_ne_nil_iff]
  constructor
  · intro h hnil
    apply h
    refine ⟨hnil, List.eq_nil_iff_forall_not_mem.mpr ?_⟩
    intro i hi
    -- more than the faults of the lock is reported only along with one of them
    obtain ⟨hop, hmany, _⟩ := hextra i hi
    refine (Lock.faults_ne_nil_iff lock t).mpr (.otherSideHeld ?_ ?_) hnil
    · rw [hop]
      rfl
    · rw [hop]
      exact Nat.lt_trans Nat.zero_lt_one hmany
  · exact fun h hnil => h hnil.1

/-- A writer takes a lock twice, as its flags allow. -/
def repeatedWrites : List Call :=
  [.locate 0x100 "rwlock_t" 0 fun _ => ⟨none, none⟩,
    .operate 1 ⟨.acquire .writer, 1, 1, Site.unknown, 0, .none, 1⟩,
    .operate 1 ⟨.acquire .writer, 1, 2, Site.unknown, 0, .none, 1⟩]

/-- Then a reader takes it. -/
def readAfterWrites : Transition := ⟨.acquire .reader, 2, 3, Site.unknown, 0, .none, 0⟩

theorem faults_of_repeatedWrites :
    let m := (Monitor.initial true).calls repeatedWrites
    (m.step 1 readAfterWrites).1.faults ≠ m.faults ∧
      ((m.step 1 readAfterWrites).1.faults.map Inconsistency.name) =
        ["other_side_held", "multiple_writer_txns"] := by
  have hget : ((Monitor.initial true).calls repeatedWrites).locks.get? 1 =
      some ⟨0x100, .both 1 2, "rwlock_t", none, none, 1, 0, 2,
        [⟨⟨2, Site.unknown, 0, .none⟩, .writer⟩, ⟨⟨1, Site.unknown, 0, .none⟩, .writer⟩]⟩ := by
    decide +kernel
  refine ⟨(faults_of_calls true repeatedWrites hget readAfterWrites).2.mpr ?_, by decide +kernel⟩
  exact .otherSideHeld rfl (by decide)

end Monitor

end LockTrace
