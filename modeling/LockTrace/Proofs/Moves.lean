import LockTrace.Proofs.Calls
import LockTrace.Proofs.Closings
import LockTrace.Proofs.Operations
import LockTrace.Session.Basic

/-!
# The moves of a monitor

Whatever a monitor or a session does, as far as transactions are concerned it consists of a
few moves: something is written that is about no transaction, the locks change, a transaction
is opened or closed, an access is counted and written (`Moves`). What every move keeps is kept
by a lock operation, by an event, by a whole run and by its end.

Transactions are purged only when a writer or a reader takes a lock away from the other side.
All other work gets along without (`Monitor.moves_step`).
-/

namespace LockTrace

namespace Monitor

/-- A monitor that comes from `m` by some moves. Only with `purging` may the transactions
    below one that is closed be purged. -/
inductive Moves (purging : Bool) (m : Monitor) : Monitor → Prop
  | refl : Moves purging m m
  | outputs {m' : Monitor} (os : List Output) (h : Moves purging m m')
      (hquiet : ∀ o ∈ os, o.Quiet) : Moves purging m (m'.withOutputs os)
  | locks {m' : Monitor} (locks : LockStore) (h : Moves purging m m') :
      Moves purging m { m' with locks := locks }
  | openTxn {m' : Monitor} (key : Nat) (side : Side) (ctx : Int64) (time : UInt64)
      (h : Moves purging m m') : Moves purging m (m'.openTxn key side ctx time)
  | closeTxn {m' : Monitor} (key : Nat) (side : Side) (ctx : Int64) (time : UInt64)
      (purge : Bool) (h : Moves purging m m') (hpurge : purge = true → purging = true) :
      Moves purging m (m'.closeTxn key side ctx time purge).2
  | access {m' : Monitor} (ctx : Int64) (row : AccessRow) (h : Moves purging m m')
      (hrow : row.txn = (m'.innermost? ctx).map Txn.id) :
      Moves purging m ((m'.countAccess ctx).write (.access row))

namespace Moves

variable {purging : Bool} {m m' m'' : Monitor}

theorem trans (h : Moves purging m m') (h' : Moves purging m' m'') : Moves purging m m'' := by
  induction h' with
  | refl => exact h
  | outputs os _ hquiet ih => exact ih.outputs os hquiet
  | locks locks _ ih => exact ih.locks locks
  | openTxn key side ctx time _ ih => exact ih.openTxn key side ctx time
  | closeTxn key side ctx time purge _ hpurge ih => exact ih.closeTxn key side ctx time purge hpurge
  | access ctx row _ hrow ih => exact ih.access ctx row hrow

theorem weaken (h : Moves false m m') : Moves true m m' := by
  induction h with
  | refl => exact .refl
  | outputs os _ hquiet ih => exact ih.outputs os hquiet
  | locks locks _ ih => exact ih.locks locks
  | openTxn key side ctx time _ ih => exact ih.openTxn key side ctx time
  | closeTxn key side ctx time purge _ _ ih =>
    exact ih.closeTxn key side ctx time purge (fun _ => rfl)
  | access ctx row _ hrow ih => exact ih.access ctx row hrow

theorem report (h : Moves purging m m') (i : Inconsistency) : Moves purging m (m'.report i) :=
  h.outputs [.report i] (List.forall_mem_singleton.mpr trivial)

theorem modifyLock (h : Moves purging m m') (key : Nat) (f : Lock → Lock) :
    Moves purging m (m'.modifyLock key f) :=
  h.locks (m'.locks.modify key f)

theorem beginHold (h : Moves purging m m') (key : Nat) (t : Transition) :
    Moves purging m (m'.beginHold key t) :=
  (h.modifyLock key _).openTxn key t.op.side t.ctx t.time

end Moves

/-! ### Lock operations -/

section Operation

variable (m : Monitor) (key : Nat) (lock : Lock) (t : Transition)

theorem moves_missedRelease : Moves false m (m.missedRelease key lock t) := by
  obtain ⟨m₁, hm₁, ⟨owner, _, _, heq⟩ | ⟨_, heq⟩⟩ := m.missedRelease_cases key lock t
  · have hreported : Moves false m m₁ := by
      rw [hm₁]
      exact Moves.refl.report _
    rw [heq]
    exact (hreported.closeTxn key t.op.side owner t.time false (fun h => by cases h)).modifyLock
      key _
  · rw [heq, hm₁]
    exact Moves.refl.report _

theorem moves_release : Moves false m (m.release key lock t) := by
  have hclosed : Moves false m (m.closeReleased key lock t) := by
    rcases m.closeReleased_cases key lock t with ⟨owner, _, _, _, heq⟩ | ⟨fault, _, heq⟩
    · rw [heq]
      exact (Moves.refl.closeTxn key t.op.side owner t.time false (fun h => by cases h)).modifyLock
        key _
    · rw [heq]
      exact Moves.refl.report _
  rw [release_eq]
  split
  · exact hclosed.report _
  · exact hclosed.modifyLock key _

/-- An operation purges nothing, unless it is an acquisition that finds the other side of a
    live lock held. -/
theorem moves_step :
    Moves false m (m.step key t).1 ∨
    ∃ lock m₁, m.locks.get? key = some lock ∧ m₁ = m.modifyLock key (·.setFlags t.flags) ∧
      t.op.isAcquire = true ∧ lock.kind.supports t.op.side = true ∧ lock.count t.op.side = 0 ∧
      0 < lock.count t.op.side.other ∧
      (m.step key t).1 = (m₁.preempt key (lock.setFlags t.flags) t).beginHold key t := by
  rcases m.step_cases key t with ⟨_, heq⟩ | ⟨lock₀, lock, m₁, hget, hlock, hm₁, hcases⟩
  · rw [heq]
    exact Or.inl .refl
  · have hflags : Moves false m m₁ := by
      rw [hm₁]
      exact Moves.refl.modifyLock key _
    rcases hcases with ⟨hkind, hacquire, heq⟩ | ⟨_, _, heq⟩ | ⟨_, heq⟩
    · rw [heq]
      rcases m₁.acquire_cases key lock t with
        ⟨_, _, heq'⟩ | ⟨hfree, hother, heq'⟩ | ⟨_, _, _, _, heq'⟩ | ⟨_, _, heq'⟩
      · rw [heq']
        exact Or.inl hflags
      · rw [hlock, Lock.count_setFlags] at hfree hother
        rw [hlock] at hkind
        refine Or.inr ⟨lock₀, m₁, hget, hm₁, hacquire, hkind, hfree, hother, ?_⟩
        rw [heq', hlock]
      · rw [heq']
        exact Or.inl ((hflags.trans (m₁.moves_missedRelease key lock t)).beginHold key t)
      · rw [heq']
        exact Or.inl (hflags.beginHold key t)
    · rw [heq]
      exact Or.inl (hflags.trans (m₁.moves_release key lock t))
    · rw [heq]
      exact Or.inl (hflags.report _)

theorem moves_step_purging : Moves true m (m.step key t).1 :=
  step_induction (fun _ i _ h => h.report i) (fun _ f _ h => h.modifyLock key f)
    (fun _ h => h.openTxn key t.op.side t.ctx t.time)
    (fun _ side owner purge h _ => h.closeTxn key side owner t.time purge fun _ => rfl) .refl

end Operation

/-! ### The other calls -/

theorem quiet_of_mem_lockRows {l : Lock} {o : Output} (h : o ∈ lockRows l) : o.Quiet := by
  obtain ⟨_, _, rfl⟩ := List.mem_map.mp h
  trivial

theorem quiet_of_mem_reports (is : List Inconsistency) {o : Output} (h : o ∈ is.map Output.report) :
    o.Quiet := by
  obtain ⟨_, _, rfl⟩ := List.mem_map.mp h
  trivial

theorem moves_withLock (m : Monitor) (address : UInt64) (label : String) (kind : LockKind)
    (flags : UInt32) (placement : Placement) :
    Moves false m (m.withLock address label kind flags placement) :=
  (Moves.refl.outputs _ fun _ ho => quiet_of_mem_lockRows ho).locks _

theorem moves_freeRange (m : Monitor) (base size time : UInt64) :
    Moves false m (m.freeRange base size time).2 := by
  have hreported : Moves false m (m.withOutputs _) := Moves.refl.outputs _ fun _ ho =>
    quiet_of_mem_reports (m.locks.freeRange base size time).reports ho
  exact hreported.locks (m.locks.freeRange base size time).store

theorem moves_closeAll (m : Monitor) (time : UInt64) : Moves false m (m.closeAll time) := by
  apply closeAll_induction (P := Moves false m) _ _ .refl
  · intro m' count ctx hm
    exact hm.outputs [.remark (.stillActive count ctx)] (List.forall_mem_singleton.mpr trivial)
  · intro m' ctx top below hm _
    exact hm.closeTxn top.lock top.side ctx time false (fun h => by cases h)

end Monitor

namespace Session

open Monitor (Moves)

/-! ### Events -/

theorem mem_of_mem_dropOwnUpdate {lock : Option (UInt64 × Int64)} {pending : List PendingAccess}
    {a : PendingAccess} (h : a ∈ (dropOwnUpdate lock pending).1) : a ∈ pending := by
  unfold dropOwnUpdate at h
  split at h
  · split at h
    · exact List.mem_cons_of_mem _ (List.mem_cons_of_mem _ h)
    · exact h
  · exact h

/-- What holds of a session whose buffer was emptied, and is kept when an access that waited is
    written, holds when all are. -/
theorem flush_induction_accesses {P : Session → Prop} {s : Session}
    (haccess : ∀ (s' : Session), ∀ a ∈ s.pending, P s' → P (s'.writeAccess a))
    (hempty : ∀ discarded, P { s with pending := [], discarded := discarded })
    (lock : Option (UInt64 × Int64)) : P (s.flush lock) := by
  apply List.foldlRecOn _ writeAccess (hempty _)
  intro s' h a ha
  exact haccess s' a (mem_of_mem_dropOwnUpdate (List.mem_reverse.mp ha)) h

/-- What every access keeps is kept when all that wait are written. -/
theorem flush_induction {P : Monitor → Prop}
    (haccess : ∀ (m : Monitor) (ctx : Int64) (row : AccessRow),
      row.txn = (m.innermost? ctx).map Txn.id → P m → P ((m.countAccess ctx).write (.access row)))
    {s : Session} (h : P s.monitor) (lock : Option (UInt64 × Int64)) :
    P (s.flush lock).monitor :=
  flush_induction_accesses (P := fun s => P s.monitor)
    (fun s' a _ h => haccess s'.monitor a.ctx _ rfl h) (fun _ => h) lock

theorem moves_flush (s : Session) (lock : Option (UInt64 × Int64)) :
    Moves false s.monitor (s.flush lock).monitor :=
  flush_induction (fun _ ctx row hrow h => h.access ctx row hrow) .refl lock

theorem plain_allocate (h : Heap) (base size : UInt64) (typeName : String) (time : UInt64) :
    ∀ o ∈ (h.allocate base size typeName time).outputs, o.Plain := by
  intro o ho
  unfold Heap.allocate at ho
  split at ho
  · exact List.forall_mem_singleton.mpr trivial o ho
  · split at ho
    · simp only at ho
      split at ho
      · cases ho
      · exact List.forall_mem_singleton.mpr trivial o ho
    · exact List.forall_mem_singleton.mpr trivial o ho

theorem plain_free (h : Heap) (base time : UInt64) : ∀ o ∈ (h.free base time).outputs, o.Plain := by
  unfold Heap.free
  split <;> exact List.forall_mem_singleton.mpr trivial

theorem plain_finish (h : Heap) : ∀ o ∈ h.finish.outputs ++ [Output.record .flush], o.Plain := by
  intro o ho
  rcases List.mem_append.mp ho with ho | ho
  · obtain ⟨a, _, rfl⟩ := List.mem_map.mp ho
    trivial
  · rw [List.mem_singleton.mp ho]
    trivial

theorem moves_allocEvent (s : Session) (e : Event) (size : UInt64) :
    Moves false s.monitor (s.allocEvent e size).monitor :=
  Moves.refl.outputs _ fun o ho =>
    (plain_allocate s.heap e.address size e.typeName e.time o ho).quiet

theorem moves_freeEvent (s : Session) (e : Event) :
    Moves false s.monitor (s.freeEvent e).monitor := by
  have hfree : Moves false s.monitor
      (s.monitor.withOutputs (s.heap.free e.address e.time).outputs) :=
    Moves.refl.outputs _ fun o ho => (plain_free s.heap e.address e.time o ho).quiet
  unfold freeEvent
  simp only
  split
  · exact hfree
  · exact hfree.trans (Monitor.moves_freeRange _ _ _ _)

/-- A lock operation that is carried out is one of the monitor, after the lock was looked up
    and the pending accesses were written. -/
theorem lockEvent_cases (s : Session) (e : Event) (op : LockOp) (irqSync : IrqSync)
    (flags : UInt32) :
    Moves false s.monitor (s.lockEvent e op irqSync flags).1.monitor ∨
    ∃ key m t, s.monitor.findOrCreate e.address e.typeName flags s.place = .ok (key, m) ∧
      t = ⟨op, e.ctx, e.time, s.stripSite e.site, e.preemptCount, irqSync, flags⟩ ∧
      s.lockEvent e op irqSync flags =
        ({ s with monitor := (m.step key t).1 }, (m.step key t).2) := by
  unfold lockEvent
  split
  · exact Or.inl (Moves.refl.report _)
  · cases hfind : s.monitor.findOrCreate e.address e.typeName flags s.place with
    | error cause => exact Or.inl .refl
    | ok found => exact Or.inr ⟨found.1, found.2, _, rfl, rfl, rfl⟩

theorem moves_findOrCreate {m m' : Monitor} {address : UInt64} {label : String} {flags : UInt32}
    {place : UInt64 → Placement} {key : Nat}
    (h : m.findOrCreate address label flags place = .ok (key, m')) : Moves false m m' := by
  rcases Monitor.findOrCreate_ok h with rfl | ⟨kind, rfl⟩
  · exact .refl
  · exact m.moves_withLock address label kind flags (place address)

theorem moves_lockEvent (s : Session) (e : Event) (op : LockOp) (irqSync : IrqSync)
    (flags : UInt32) : Moves true s.monitor (s.lockEvent e op irqSync flags).1.monitor := by
  rcases s.lockEvent_cases e op irqSync flags with hmoves | ⟨key, m, t, hfound, _, heq⟩
  · exact hmoves.weaken
  · rw [heq]
    exact (moves_findOrCreate hfound).weaken.trans (m.moves_step_purging key t)

theorem moves_flushedLockEvent (s : Session) (e : Event) (op : LockOp) (irqSync : IrqSync)
    (flags : UInt32) : Moves true s.monitor (s.flushedLockEvent e op irqSync flags).1.monitor := by
  unfold flushedLockEvent
  split
  · exact .refl
  · exact (s.moves_flush _).weaken.trans (moves_lockEvent _ e op irqSync flags)

theorem moves_step (s : Session) (e : Event) : Moves true s.monitor (s.step e).1.monitor := by
  unfold step
  simp only
  split
  · exact .refl
  · exact ((s.note e).moves_flush none).weaken.trans (moves_allocEvent _ e _).weaken
  · exact ((s.note e).moves_flush none).weaken.trans (moves_freeEvent _ e).weaken
  · exact (s.note e).moves_flushedLockEvent e _ _ _
  · exact (s.note e).moves_flushedLockEvent e _ _ _

/-! ### Runs -/

theorem moves_run (s : Session) (es : List Event) : Moves true s.monitor (s.run es).1.monitor := by
  induction es generalizing s with
  | nil => exact .refl
  | cons e es ih =>
    have hstep := s.moves_step e
    unfold run
    split
    · next heq =>
      rw [heq] at hstep
      exact hstep.trans (ih _)
    · next heq =>
      rw [heq] at hstep
      exact hstep

/-- At the end the accesses that wait are written and all transactions are closed, between outputs
    that are about neither. -/
theorem finish_eq (s : Session) :
    ∃ os os', (∀ o ∈ os, o.Plain) ∧ (∀ o ∈ os', o.Plain) ∧ s.finish.monitor =
      (((s.flush none).monitor.withOutputs os).closeAll
        (s.flush none).lastTime).withOutputs os' := by
  refine ⟨if (s.flush none).monitor.isIdle then []
    else [.remark (.closing (s.flush none).lastTime)], _, ?_, plain_finish (s.flush none).heap, ?_⟩
  · split
    · simp
    · exact List.forall_mem_singleton.mpr trivial
  · unfold finish
    simp only
    split <;> rfl

theorem moves_finish (s : Session) : Moves false s.monitor s.finish.monitor := by
  obtain ⟨os, os', hos, hos', heq⟩ := s.finish_eq
  have hflush := (s.moves_flush none).outputs os fun o ho => (hos o ho).quiet
  rw [heq]
  exact (hflush.trans (Monitor.moves_closeAll _ _)).outputs os' fun o ho => (hos' o ho).quiet

end Session

end LockTrace
