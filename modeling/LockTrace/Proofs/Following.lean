import LockTrace.Proofs.Conservation
import LockTrace.Proofs.InStep
import LockTrace.Proofs.Sessions

/-!
# Following a trace keeps locks and stacks in step

A session uses its monitor by calls, and in between only writes to the journal. Writing the
pending accesses changes no lock and no stack but for the counts of accesses
(`map_shape_flush`), and not the heap.
-/

namespace LockTrace

/-! ### Stacks without their accesses -/

/-- A transaction without the count of its accesses. -/
def Txn.shape (t : Txn) : Txn := { t with accesses := 0 }

theorem TxnStack.map_shape_addAccesses (s : TxnStack) (n : Nat) :
    (s.addAccesses n).map Txn.shape = s.map Txn.shape := by
  cases s <;> rfl

namespace Session

open Monitor (InStep)

theorem locks_flush (s : Session) (lock : Option (UInt64 × Int64)) :
    (s.flush lock).monitor.locks = s.monitor.locks :=
  flush_induction (P := fun m => m.locks = s.monitor.locks) (fun _ _ _ _ h => h) rfl lock

theorem heap_flush (s : Session) (lock : Option (UInt64 × Int64)) :
    (s.flush lock).heap = s.heap :=
  flush_induction_accesses (P := fun s' => s'.heap = s.heap) (fun _ _ _ h => h) (fun _ => rfl) lock

/-- The stacks are the same but for the counts of accesses. -/
theorem map_shape_flush (s : Session) (lock : Option (UInt64 × Int64)) (c : Int64) :
    ((s.flush lock).monitor.stack c).map Txn.shape = (s.monitor.stack c).map Txn.shape := by
  apply flush_induction
    (P := fun m => (m.stack c).map Txn.shape = (s.monitor.stack c).map Txn.shape) _ rfl
  intro m ctx row _ h
  rw [Monitor.stack_access]
  split
  · next hc => rw [TxnStack.map_shape_addAccesses, hc, h]
  · exact h

/-! ### What sessions write -/

theorem outputs_writeAccess (s : Session) (a : PendingAccess) :
    (s.writeAccess a).monitor.outputs =
      s.monitor.outputs ++ [.record (.access (s.accessRow a))] :=
  Monitor.outputs_write _ _

theorem outputs_allocEvent (s : Session) (e : Event) (size : UInt64) :
    (s.allocEvent e size).monitor.outputs =
      s.monitor.outputs ++ (s.heap.allocate e.address size e.typeName e.time).outputs :=
  Journal.toList_outputs_addAll _ _

theorem outputs_freeEvent (s : Session) (e : Event) :
    ∃ reports : List Inconsistency, (s.freeEvent e).monitor.outputs = s.monitor.outputs ++
      ((s.heap.free e.address e.time).outputs ++ reports.map .report) := by
  have hfree := s.monitor.outputs_withOutputs (s.heap.free e.address e.time).outputs
  unfold freeEvent
  simp only
  split
  · refine ⟨[], ?_⟩
    rw [List.map_nil, List.append_nil]
    exact hfree
  · next a _ =>
    have hreports := Monitor.outputs_freeRange
      (s.monitor.withOutputs (s.heap.free e.address e.time).outputs) a.base a.size e.time
    rw [hfree, List.append_assoc] at hreports
    exact ⟨_, hreports⟩

/-! ### What events on memory do -/

theorem step_of_alloc {e : Event} {size : UInt64} (he : e.operation = .alloc size) (s : Session) :
    s.step e = (((s.note e).flush none).allocEvent e size, none) := by
  simp only [step, he]

theorem step_of_free {e : Event} (he : e.operation = .free) (s : Session) :
    s.step e = (((s.note e).flush none).freeEvent e, none) := by
  simp only [step, he]

/-- A free finds no allocation and leaves the locks and the heap, or ends one and takes the locks
    in its range away. -/
theorem freeEvent_cases (s : Session) (e : Event) :
    (s.heap.active.get? e.address = none ∧ (s.freeEvent e).heap = s.heap ∧
      (s.freeEvent e).monitor.locks = s.monitor.locks) ∨
    ∃ a, s.heap.active.get? e.address = some a ∧
      (s.freeEvent e).heap = { s.heap with active := s.heap.active.erase e.address } ∧
      (s.freeEvent e).monitor.locks = (s.monitor.locks.freeRange a.base a.size e.time).store := by
  unfold freeEvent Heap.free
  cases s.heap.active.get? e.address with
  | none => exact Or.inl ⟨rfl, rfl, rfl⟩
  | some a => exact Or.inr ⟨a, rfl, rfl, rfl⟩

/-! ### What sessions keep -/

theorem kept_inStep : Monitor.Kept InStep := fun _ => {
  plain h _ := h.withOutputs _
  unseen _ _ _ _ h := h.report _
  access ctx _ h := (h.countAccess ctx).withOutputs [_]
  withLock address label kind flags placement _ h := h.withLock address label kind flags placement
  freeRange base size time h := h.freeRange base size time
  operate key t _ h := h.step key t }

/-- Keys and addresses of the live locks go on belonging together. -/
theorem kept_keyed : Monitor.Kept fun m => m.locks.Keyed := fun _ => {
  plain h _ := h
  unseen _ _ _ _ h := h
  access _ _ h := h
  withLock _ label kind flags placement hnew h :=
    (h.create hnew label kind placement).modify _ fun _ => rfl
  freeRange base size time h := h.freeRange base size time
  operate key t _ h := by
    apply Monitor.step_induction (P := fun m => m.locks.Keyed) _ _ _ _ h
    · exact fun _ _ _ h => h
    · exact fun m f hf h => h.modify key fun lock => (hf lock).address
    · exact fun _ h => h
    · intro m side owner purge h _
      rw [Monitor.locks_closeTxn]
      exact h }

theorem inStep_initial (config : Config) (symbols : SymbolTable) :
    (Session.initial config symbols).monitor.InStep :=
  InStep.initial config.skipEmpty

end Session

end LockTrace
