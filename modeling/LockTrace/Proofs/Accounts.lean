import LockTrace.Proofs.Faults
import LockTrace.Proofs.Tallies
import LockTrace.Proofs.TxnRows

/-!
# What became of every transaction

The numbers handed out are 1 up to the number of transactions that were opened or opened again,
and each of them is in one place (`Monitor.Accounts`): its transaction has its row, or was
suppressed, or is open at one position of one stack, or was purged. Which of the first two it is
depends on the accesses that were counted while it was the innermost one of a context
(`Monitor.Counted`), and it is purged only by an operation that takes its lock away from its
readers and reports so (`mem_purgedIds_calls`). A number that comes with a call is larger than all
before it (`Monitor.Renews`).
-/

namespace LockTrace

namespace LockStore

section Unwind

variable {locks : LockStore} {skipEmpty : Bool} {key : Nat} {side : Side} {ctx : Int64}
  {time : UInt64} {purge : Bool} {s : TxnStack}

theorem suppressed_of_mem_closeOutputs {i : Nat} {top : Txn} {below : TxnStack}
    (h : Output.remark (.suppressed i) ∈ locks.closeOutputs skipEmpty time top below) :
    i = top.id ∧ skipEmpty = true ∧ top.accesses = 0 := by
  unfold closeOutputs at h
  split at h
  · next hskip =>
    cases List.mem_singleton.mp h
    exact ⟨rfl, hskip⟩
  · have hheld := (List.mem_cons.mp h).resolve_left (by simp)
    exact (heldOutputs_forall (P := (· ≠ .remark (.suppressed i))) locks time (fun _ => by simp)
      (fun _ _ => by simp) hheld rfl).elim

theorem suppressed_of_mem_unwindOutputs {i : Nat}
    (h : Output.remark (.suppressed i) ∈
      locks.unwindOutputs skipEmpty key side ctx time purge s) :
    ∃ t ∈ s, t.id = i ∧ skipEmpty = true ∧ t.accesses = 0 := by
  rcases mem_unwindOutputs _ _ _ _ _ _ _ h with ⟨t, ht, below, hclosed⟩ | ⟨_, _, heq⟩ | ⟨_, heq⟩
  · obtain ⟨rfl, hskip⟩ := suppressed_of_mem_closeOutputs hclosed
    exact ⟨t, ht, rfl, hskip⟩
  · cases heq
  · cases heq

end Unwind

end LockStore

namespace Monitor

theorem mem_suppressedIds {m : Monitor} {i : Nat} :
    i ∈ m.suppressedIds ↔ Output.remark (.suppressed i) ∈ m.outputs := by
  unfold suppressedIds
  rw [List.mem_filterMap]
  constructor
  · rintro ⟨o, ho, hi⟩
    unfold Output.suppressedId? at hi
    split at hi
    · cases hi
      exact ho
    · cases hi
  · exact fun h => ⟨_, h, rfl⟩

/-- What comes open when a transaction is closed has a new number and no accesses. -/
theorem mem_openTxns_closeTxn {m : Monitor} {key : Nat} {side : Side} {ctx : Int64} {time : UInt64}
    {purge : Bool} {t : Txn} (ht : t ∈ (m.closeTxn key side ctx time purge).2.openTxns) :
    t ∈ m.openTxns ∨ (m.txnIds.next ≤ t.id ∧ t.accesses = 0) := by
  have hmem := (m.openTxns_closeTxn_perm key side ctx time purge).subset ht
  rcases List.mem_append.mp hmem with hstack | helsewhere
  · rcases TxnStack.mem_unwound hstack with hbefore | hnew
    · exact Or.inl (mem_openTxns_iff.mpr ⟨ctx, hbefore⟩)
    · exact Or.inr ⟨hnew.1, hnew.2.2.2⟩
  · exact Or.inl ((m.openTxns_perm ctx).symm.subset (List.mem_append_right _ helsewhere))

theorem Conserved.id_lt {m : Monitor} (h : m.Conserved) {t : Txn} (ht : t ∈ m.openTxns) :
    t.id < m.txnIds.next :=
  h.lt_next (Or.inr (List.mem_map_of_mem ht))

/-! ### Accesses that calls count -/

/-- How many accesses a call counts for the transaction `i`. -/
def accessesOf (m : Monitor) (i : Nat) : Call → Nat
  | .countAccess ctx => if (m.innermost? ctx).map Txn.id = some i then 1 else 0
  | _ => 0

theorem accessesOf_eq_zero {m : Monitor} {i : Nat} (hi : i ∉ m.openIds) (c : Call) :
    m.accessesOf i c = 0 := by
  unfold accessesOf
  split
  · next ctx =>
    refine if_neg fun heq => hi ?_
    obtain ⟨t, ht, rfl⟩ := Option.map_eq_some_iff.mp heq
    exact List.mem_map_of_mem (mem_openTxns_iff.mpr ⟨ctx, List.mem_of_mem_head? ht⟩)
  · rfl

/-- How many accesses some calls count for the transaction `i`, one after the other. -/
def accessesIn (m : Monitor) (i : Nat) : List Call → Nat
  | [] => 0
  | c :: cs => m.accessesOf i c + accessesIn (m.call c).1 i cs

/-- The transaction `i` had `n i` accesses: so many has it if it is open, and this is how it
    ended if it was suppressed or written. -/
structure Counted (n : Nat → Nat) (m : Monitor) : Prop where
  conserved : m.Conserved
  accesses : ∀ t ∈ m.openTxns, t.accesses = n t.id
  fresh : ∀ i, m.txnIds.next ≤ i → n i = 0
  suppressed : ∀ i ∈ m.suppressedIds, m.skipEmpty = true ∧ n i = 0
  written : ∀ i ∈ m.journal.txnRowIds, m.skipEmpty = true → 0 < n i

namespace Counted

variable {n : Nat → Nat} {m : Monitor}

theorem initial (skipEmpty : Bool) : Counted (fun _ => 0) (Monitor.initial skipEmpty) where
  conserved := .initial skipEmpty
  accesses t ht := by cases ht
  fresh _ _ := rfl
  suppressed i hi := by cases hi
  written i hi := by cases hi

theorem stable (n : Nat → Nat) : Stable (Counted n) where
  outputs {m os} h hquiet := by
    refine ⟨h.conserved.moves (Moves.refl.outputs os hquiet : Moves true m _), h.accesses, h.fresh,
      ?_, ?_⟩
    · intro i hi
      apply h.suppressed i
      rw [mem_suppressedIds, outputs_withOutputs] at hi
      rw [mem_suppressedIds]
      exact (List.mem_append.mp hi).resolve_right fun hnew => (hquiet _ hnew).elim
    · intro i hi
      apply h.written i
      obtain ⟨row, hrow, hid⟩ := mem_txnRowIds.mp hi
      rw [outputs_withOutputs] at hrow
      exact mem_txnRowIds.mpr ⟨row,
        (List.mem_append.mp hrow).resolve_right fun hnew => (hquiet _ hnew).elim, hid⟩
  locks {m} store h :=
    ⟨h.conserved.moves (Moves.refl.locks store : Moves true m _), h.accesses, h.fresh, h.suppressed,
      h.written⟩
  openTxn {m} key side ctx time h := by
    refine ⟨h.conserved.moves (Moves.refl.openTxn key side ctx time : Moves true m _), ?_, ?_,
      h.suppressed, h.written⟩
    · intro t ht
      rcases List.mem_cons.mp ((m.openTxns_openTxn_perm key side ctx time).subset ht) with rfl | ht
      · exact (h.fresh m.txnIds.next (Nat.le_refl _)).symm
      · exact h.accesses t ht
    · intro i hi
      exact h.fresh i (Nat.le_of_succ_le hi)
  closeTxn {m} key side ctx time purge h := by
    have hmoves : Moves true m (m.closeTxn key side ctx time purge).2 :=
      Moves.refl.closeTxn key side ctx time purge fun _ => rfl
    refine ⟨h.conserved.moves hmoves, ?_, ?_, ?_, ?_⟩
    · intro t ht
      rcases mem_openTxns_closeTxn ht with ht | ⟨hid, hzero⟩
      · exact h.accesses t ht
      · rw [hzero, h.fresh t.id hid]
    · intro i hi
      rw [next_closeTxn] at hi
      exact h.fresh i (by omega)
    · intro i hi
      rw [skipEmpty_closeTxn]
      rw [mem_suppressedIds, outputs_closeTxn] at hi
      rcases List.mem_append.mp hi with hi | hi
      · exact h.suppressed i (mem_suppressedIds.mpr hi)
      · obtain ⟨t, ht, rfl, hskip, hzero⟩ := LockStore.suppressed_of_mem_unwindOutputs hi
        rw [← h.accesses t (mem_openTxns_iff.mpr ⟨ctx, ht⟩)]
        exact ⟨hskip, hzero⟩
    · intro i hi
      rw [skipEmpty_closeTxn]
      obtain ⟨row, hrow, hid⟩ := mem_txnRowIds.mp hi
      rw [outputs_closeTxn] at hrow
      rcases List.mem_append.mp hrow with hrow | hrow
      · exact h.written i (mem_txnRowIds.mpr ⟨row, hrow, hid⟩)
      · obtain ⟨t, ht, rfl, hpos⟩ := LockStore.written_of_mem_unwindOutputs hrow
        have hopen := mem_openTxns_iff.mpr ⟨ctx, TxnStack.closed_subset key side _ ht⟩
        rw [h.accesses t hopen] at hpos
        rw [← hid]
        exact hpos

theorem not_mem_openIds (h : m.Counted n) {i : Nat} (hi : i ∈ m.closedIds) : i ∉ m.openIds := by
  intro hopen
  exact (List.nodup_append.mp h.conserved.nodup).2.2 i hi i hopen rfl

/-- The access is one more of the innermost transaction, and of no other. -/
theorem accesses_countAccess (h : m.Counted n) (ctx : Int64) :
    ∀ t ∈ (m.countAccess ctx).openTxns,
      t.accesses = n t.id + m.accessesOf t.id (.countAccess ctx) := by
  have hbefore := m.openTxns_perm ctx
  have hnodup := (List.nodup_append.mp h.conserved.nodup).2.1
  unfold openIds at hnodup
  intro t ht
  have hmem := (m.openTxns_setStack_perm ctx ((m.stack ctx).addAccesses 1)).subset ht
  unfold accessesOf innermost?
  cases hs : m.stack ctx with
  | nil =>
    rw [hs] at hmem hbefore
    simpa [hs] using h.accesses t (hbefore.symm.subset hmem)
  | cons top below =>
    rw [hs] at hmem hbefore
    have hnodup' := (hbefore.map Txn.id).nodup_iff.mp hnodup
    rw [List.cons_append, List.map_cons, List.nodup_cons] at hnodup'
    rcases List.mem_cons.mp hmem with rfl | hrest
    · have htop := h.accesses top (hbefore.symm.subset List.mem_cons_self)
      simp [hs, htop]
    · have hne : top.id ≠ t.id := by
        intro heq
        exact hnodup'.1 (heq ▸ List.mem_map_of_mem hrest)
      have hsame := h.accesses t (hbefore.symm.subset (List.mem_cons_of_mem _ hrest))
      simp [hs, hsame, hne]

theorem countAccess (h : m.Counted n) (ctx : Int64) :
    Counted (fun i => n i + m.accessesOf i (.countAccess ctx)) (m.countAccess ctx) where
  conserved := by
    refine ⟨h.conserved.pos, ?_⟩
    exact (List.Perm.append_left _ (m.openIds_countAccess_perm ctx)).trans h.conserved.perm
  accesses := h.accesses_countAccess ctx
  fresh i hi := by
    have hnew : i ∉ m.openIds := by
      intro hmem
      obtain ⟨t, ht, rfl⟩ := List.mem_map.mp hmem
      exact absurd (h.conserved.id_lt ht) (Nat.not_lt.mpr hi)
    rw [h.fresh i hi, accessesOf_eq_zero hnew]
  suppressed i hi := by
    have hclosed : i ∈ m.closedIds :=
      m.closedIds_perm.symm.subset (List.mem_append_right _ (List.mem_append_left _ hi))
    rw [accessesOf_eq_zero (h.not_mem_openIds hclosed)]
    exact h.suppressed i hi
  written i hi hskip := Nat.add_pos_left (h.written i hi hskip) _

theorem call (h : m.Counted n) (c : Call) :
    Counted (fun i => n i + m.accessesOf i c) (m.call c).1 := by
  cases c with
  | countAccess ctx => exact h.countAccess ctx
  | locate address label flags place => exact (stable n).call h (by simp)
  | operate key t => exact (stable n).call h (by simp)
  | freeRange base size time => exact (stable n).call h (by simp)

theorem calls (h : m.Counted n) (cs : List Call) :
    Counted (fun i => n i + m.accessesIn i cs) (m.calls cs) := by
  induction cs generalizing m n with
  | nil => exact h
  | cons c cs ih =>
    have hnext := ih (h.call c)
    simp only [Nat.add_assoc] at hnext
    exact hnext

end Counted

/-! ### Numbers that come with a call -/

/-- What is open was open before, or has a number that comes after all numbers of before. -/
structure Renews (m m' : Monitor) : Prop where
  next : m.txnIds.next ≤ m'.txnIds.next
  openTxns : ∀ t ∈ m'.openTxns, (∃ u ∈ m.openTxns, u.shape = t.shape) ∨ m.txnIds.next ≤ t.id

theorem Renews.refl (m : Monitor) : m.Renews m :=
  ⟨Nat.le_refl _, fun t ht => Or.inl ⟨t, ht, rfl⟩⟩

theorem Renews.stable (m : Monitor) : Stable m.Renews where
  outputs h _ := ⟨h.next, h.openTxns⟩
  locks _ h := ⟨h.next, h.openTxns⟩
  openTxn {m'} key side ctx time h := by
    refine ⟨Nat.le_succ_of_le h.next, ?_⟩
    intro t ht
    rcases List.mem_cons.mp ((m'.openTxns_openTxn_perm key side ctx time).subset ht) with rfl | ht
    · exact Or.inr h.next
    · exact h.openTxns t ht
  closeTxn {m'} key side ctx time purge h := by
    refine ⟨?_, ?_⟩
    · rw [next_closeTxn]
      exact Nat.le_add_right_of_le h.next
    · intro t ht
      rcases mem_openTxns_closeTxn ht with ht | ⟨hid, _⟩
      · exact h.openTxns t ht
      · exact Or.inr (Nat.le_trans h.next hid)

theorem renews_call (m : Monitor) (c : Call) : m.Renews (m.call c).1 := by
  apply (Renews.stable m).call (Renews.refl m)
  intro ctx _
  exact ⟨Nat.le_refl _, fun t ht => Or.inl (exists_of_mem_openTxns_countAccess ctx ht)⟩

/-! ### Operations that purge -/

/-- The operation takes the lock away from its readers, and the transaction `i` is one of
    theirs below another one. -/
def Overtakes (m : Monitor) (key : Nat) (t : Transition) (i : Nat) : Prop :=
  t.op = .acquire .writer ∧ m.HeldByReaders key ∧ ∃ ctx, (m.stack ctx).Covers key .reader i

theorem mem_purgedIds_call {m : Monitor} (hm : m.InStep) (c : Call) (i : Nat) :
    i ∈ (m.call c).1.purgedIds ↔
      i ∈ m.purgedIds ∨ ∃ key t, c = .operate key t ∧ m.Overtakes key t i := by
  have hnone : (∀ key t, c ≠ .operate key t) →
      (i ∈ (m.call c).1.purgedIds ↔ i ∈ m.purgedIds) →
      (i ∈ (m.call c).1.purgedIds ↔
        i ∈ m.purgedIds ∨ ∃ key t, c = .operate key t ∧ m.Overtakes key t i) := by
    intro hc hsame
    rw [hsame]
    refine ⟨Or.inl, fun h => h.resolve_right ?_⟩
    rintro ⟨key, t, heq, _⟩
    exact hc key t heq
  cases c with
  | operate key t =>
    refine (mem_purgedIds_step_iff hm key t i).trans (or_congr Iff.rfl ?_)
    constructor
    · exact fun h => ⟨key, t, rfl, h⟩
    · rintro ⟨key', t', heq, h⟩
      cases heq
      exact h
  | countAccess ctx => exact hnone (by simp) Iff.rfl
  | freeRange base size time =>
    exact hnone (by simp) ((m.moves_freeRange base size time).mem_purgedIds i)
  | locate address label flags place =>
    apply hnone (by simp)
    rcases m.call_locate address label flags place with heq | ⟨kind, heq⟩
    · rw [heq]
    · rw [heq]
      exact (m.moves_withLock address label kind flags (place address)).mem_purgedIds i

/-- Calls purge exactly the transactions that one of them overtakes. -/
theorem mem_purgedIds_calls {m : Monitor} (hm : m.InStep) (cs : List Call) (i : Nat) :
    i ∈ (m.calls cs).purgedIds ↔ i ∈ m.purgedIds ∨
      ∃ earlier key t later, cs = earlier ++ .operate key t :: later ∧
        (m.calls earlier).Overtakes key t i := by
  induction cs generalizing m with
  | nil => simp [calls]
  | cons c cs ih =>
    have hrest := ih (hm.call c)
    rw [mem_purgedIds_call hm] at hrest
    refine hrest.trans ?_
    constructor
    · rintro ((hbefore | ⟨key, t, rfl, hover⟩) | ⟨earlier, key, t, later, rfl, hover⟩)
      · exact Or.inl hbefore
      · exact Or.inr ⟨[], key, t, cs, rfl, hover⟩
      · exact Or.inr ⟨c :: earlier, key, t, later, rfl, hover⟩
    · rintro (hbefore | ⟨earlier, key, t, later, hsplit, hover⟩)
      · exact Or.inl (Or.inl hbefore)
      · cases earlier with
        | nil =>
          cases hsplit
          exact Or.inl (Or.inr ⟨key, t, rfl, hover⟩)
        | cons first earlier =>
          rw [List.cons_append, List.cons.injEq] at hsplit
          obtain ⟨rfl, rfl⟩ := hsplit
          exact Or.inr ⟨earlier, key, t, later, rfl, hover⟩

/-- An operation that overtakes a transaction reports that the other side of the lock is held. -/
theorem faults_of_overtakes {m : Monitor} (hm : m.InStep) {key : Nat} {t : Transition} {i : Nat}
    (h : m.Overtakes key t i) :
    ∃ lock rest, (m.step key t).1.faults = m.faults ++ t.mismatch .otherSideHeld lock :: rest := by
  obtain ⟨hop, ⟨lock, hget, hkind, hreaders⟩, _⟩ := h
  obtain ⟨extra, heq, _⟩ := faults_step hm hget t
  have hfaults : lock.faults t = [.otherSideHeld] := by
    unfold Lock.faults
    rw [hop]
    have hside : 0 < lock.count Side.writer.other := hreaders
    simp [LockOp.side, hkind, hside]
  refine ⟨lock.describe t.op.side, extra, ?_⟩
  rw [heq, hfaults]
  rfl

/-! ### Every sequence of calls -/

/-- The books on transactions. Each number handed out is in one of four places: its transaction
    is written, suppressed, open, or purged. `counted` are the accesses of each transaction. -/
structure Accounts (counted : Nat → Nat) (m : Monitor) : Prop where
  places : (m.journal.txnRowIds ++ m.suppressedIds ++ m.openIds ++ m.purgedIds).Perm
    (List.range' 1 (m.stats.opened + m.stats.reopened))
  emitted : m.journal.txnRowIds.length = m.stats.emitted
  suppressed : m.suppressedIds.length = m.stats.suppressed
  total : m.stats.opened + m.stats.reopened =
    m.stats.emitted + m.stats.suppressed + m.openTxns.length + m.purgedIds.length
  unread : ∀ i ∈ m.suppressedIds, m.skipEmpty = true ∧ counted i = 0
  written : ∀ i ∈ m.journal.txnRowIds, m.skipEmpty = true → 0 < counted i
  accesses : ∀ t ∈ m.openTxns, t.accesses = counted t.id
  held : (m.heldTable.map fun row => (row.txn, row.lock)).Nodup

theorem Accounts.of_parts {counted : Nat → Nat} {m : Monitor} (htallied : m.Tallied)
    (hheld : m.HeldOnce) (hcounted : m.Counted counted) : m.Accounts counted := by
  have hissued : m.txnIds.issued = m.stats.opened + m.stats.reopened := by
    unfold Counter.issued
    rw [htallied.issued]
    rfl
  have hplaces : (m.journal.txnRowIds ++ m.suppressedIds ++ m.openIds ++ m.purgedIds).Perm
      (List.range' 1 (m.stats.opened + m.stats.reopened)) := by
    rw [← hissued]
    refine List.Perm.trans ?_ (((m.closedIds_perm).append_right m.openIds).symm.trans
      hheld.conserved.perm)
    simp only [List.append_assoc]
    exact (List.perm_append_comm.append_left _).append_left _
  have hlength := hplaces.length_eq
  simp only [List.length_append, List.length_range', htallied.emitted, htallied.suppressed,
    openIds, List.length_map] at hlength
  exact {
    places := hplaces
    emitted := htallied.emitted
    suppressed := htallied.suppressed
    total := hlength.symm
    unread := hcounted.suppressed
    written := hcounted.written
    accesses := hcounted.accesses
    held := hheld.nodup }

/-- After any calls, and when all transactions are closed then, the books are balanced, and
    closing all leaves none open and purges none. Whatever was purged was a reader's transaction,
    and the operation that purged it reported that the other side was held. Whatever a further
    call leaves open was open before it or has a number that was not handed out before. -/
theorem txnIds_accounted_of_calls (skipEmpty : Bool) (cs : List Call) (time : UInt64) :
    let start := Monitor.initial skipEmpty
    let m := start.calls cs
    m.Accounts (start.accessesIn · cs) ∧
    (m.closeAll time).Accounts (start.accessesIn · cs) ∧
    (m.closeAll time).openTxns = [] ∧
    (∀ i, i ∈ (m.closeAll time).purgedIds ↔ i ∈ m.purgedIds) ∧
    (∀ i ∈ m.purgedIds, ∃ earlier key t later, cs = earlier ++ .operate key t :: later ∧
      (∃ ctx, ∃ u ∈ (start.calls earlier).stack ctx, u.id = i ∧ u.AnchoredAt key .reader) ∧
      i ∈ ((start.calls earlier).step key t).1.purgedIds ∧
      ∃ lock rest, ((start.calls earlier).step key t).1.faults =
        (start.calls earlier).faults ++ t.mismatch .otherSideHeld lock :: rest) ∧
    ∀ c, ∀ t ∈ (m.call c).1.openTxns,
      (∃ u ∈ m.openTxns, u.shape = t.shape) ∨ m.txnIds.next ≤ t.id := by
  intro start m
  have hin : ∀ earlier, (start.calls earlier).InStep := (InStep.initial skipEmpty).calls
  have htallied : m.Tallied := Tallied.stable.calls (fun _ h => ⟨h.issued, h.emitted, h.suppressed⟩)
    (.initial skipEmpty) cs
  have hheld : m.HeldOnce :=
    HeldOnce.stable.calls (fun ctx h => h.countAccess ctx) (.initial skipEmpty) cs
  have hcounted : m.Counted (start.accessesIn · cs) := by
    have hsum := (Counted.initial skipEmpty).calls cs
    simp only [Nat.zero_add] at hsum
    exact hsum
  refine ⟨.of_parts htallied hheld hcounted, .of_parts (Tallied.stable.closeAll htallied time)
    (HeldOnce.stable.closeAll hheld time) ((Counted.stable _).closeAll hcounted time),
    m.openTxns_closeAll time, (m.moves_closeAll time).mem_purgedIds, ?_,
    fun c => (m.renews_call c).openTxns⟩
  intro i hi
  rcases (mem_purgedIds_calls (.initial skipEmpty) cs i).mp hi with
    hnone | ⟨earlier, key, t, later, hsplit, hover⟩
  · cases hnone
  · have hpurged := (mem_purgedIds_step_iff (hin earlier) key t i).mpr (Or.inr hover)
    obtain ⟨ctx, hcovers⟩ := hover.2.2
    obtain ⟨u, hu, hid, hreader⟩ := TxnStack.exists_reader_of_covers hcovers
    exact ⟨earlier, key, t, later, hsplit, ⟨ctx, u, hu, hid, hreader⟩, hpurged,
      faults_of_overtakes (hin earlier) hover⟩

/-- A context reads under a lock, takes it once more and another lock on top, and reads again.
    Then a writer takes the first lock. -/
def overtakenHolds : List Call :=
  [.locate 0x100 "rwlock_t" 0 fun _ => ⟨none, none⟩,
    .operate 1 ⟨.acquire .reader, 1, 1, Site.unknown, 0, .none, 0⟩,
    .countAccess 1,
    .operate 1 ⟨.acquire .reader, 1, 2, Site.unknown, 0, .none, 0⟩,
    .locate 0x200 "spinlock_t" 0 fun _ => ⟨none, none⟩,
    .operate 2 ⟨.acquire .writer, 1, 3, Site.unknown, 0, .none, 0⟩,
    .countAccess 1,
    .operate 1 ⟨.acquire .writer, 2, 4, Site.unknown, 0, .none, 0⟩]

theorem txnIds_accounted_of_overtakenHolds :
    let m := (Monitor.initial true).calls overtakenHolds
    m.journal.txnRowIds = [3] ∧ m.suppressedIds = [2] ∧ m.openIds = [4, 5] ∧ m.purgedIds = [1] ∧
      m.Accounts ((Monitor.initial true).accessesIn · overtakenHolds) :=
  ⟨by decide +kernel, by decide +kernel, by decide +kernel, by decide +kernel,
    (txnIds_accounted_of_calls true overtakenHolds 5).1⟩

end Monitor

end LockTrace
