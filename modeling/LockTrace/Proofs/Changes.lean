import LockTrace.Proofs.Moves

/-!
# What calls keep

A call of a monitor comes down to a few changes: something is written that is about no
transaction, the locks change, a transaction is opened or closed. A property that each of them
keeps (`Monitor.Stable`) is kept by every call but the one that counts an access
(`Stable.call`), and when all transactions are closed (`Stable.closeAll`).
-/

namespace LockTrace

namespace Monitor

/-- A property that every change keeps but the counting of an access. -/
structure Stable (P : Monitor → Prop) : Prop where
  outputs : ∀ {m : Monitor} {os : List Output}, P m → (∀ o ∈ os, o.Quiet) → P (m.withOutputs os)
  locks : ∀ {m : Monitor} (locks : LockStore), P m → P { m with locks := locks }
  openTxn : ∀ {m : Monitor} (key : Nat) (side : Side) (ctx : Int64) (time : UInt64), P m →
    P (m.openTxn key side ctx time)
  closeTxn : ∀ {m : Monitor} (key : Nat) (side : Side) (ctx : Int64) (time : UInt64) (purge : Bool),
    P m → P (m.closeTxn key side ctx time purge).2

namespace Stable

variable {P : Monitor → Prop} {m : Monitor}

theorem report (hP : Stable P) (h : P m) (i : Inconsistency) : P (m.report i) := by
  rw [report_eq_withOutputs]
  exact hP.outputs h (List.forall_mem_singleton.mpr trivial)

theorem remark (hP : Stable P) (h : P m) {r : Remark} (hquiet : (Output.remark r).Quiet) :
    P (m.remark r) := by
  have hsingle : ∀ o ∈ [Output.remark r], o.Quiet := List.forall_mem_singleton.mpr hquiet
  exact hP.outputs h hsingle

theorem step (hP : Stable P) (h : P m) (key : Nat) (t : Transition) : P (m.step key t).1 :=
  step_induction (fun _ i _ hm => hP.report hm i)
    (fun m f _ hm => hP.locks (m.locks.modify key f) hm)
    (fun _ hm => hP.openTxn key t.op.side t.ctx t.time hm)
    (fun _ side owner purge hm _ => hP.closeTxn key side owner t.time purge hm) h

theorem withLock (hP : Stable P) (h : P m) (address : UInt64) (label : String) (kind : LockKind)
    (flags : UInt32) (placement : Placement) :
    P (m.withLock address label kind flags placement) :=
  hP.locks _ (hP.outputs h fun _ ho => quiet_of_mem_lockRows ho)

theorem freeRange (hP : Stable P) (h : P m) (base size time : UInt64) :
    P (m.freeRange base size time).2 := by
  have hreported := hP.outputs h fun _ ho =>
    quiet_of_mem_reports (m.locks.freeRange base size time).reports ho
  exact hP.locks (m.locks.freeRange base size time).store hreported

theorem call (hP : Stable P) (h : P m) {c : Call}
    (hcount : ∀ ctx, c = .countAccess ctx → P (m.countAccess ctx)) : P (m.call c).1 := by
  cases c with
  | locate address label flags place =>
    rcases m.call_locate address label flags place with heq | ⟨kind, heq⟩
    · rw [heq]
      exact h
    · rw [heq]
      exact hP.withLock h address label kind flags (place address)
  | operate key t => exact hP.step h key t
  | countAccess ctx => exact hcount ctx rfl
  | freeRange base size time => exact hP.freeRange h base size time

theorem calls (hP : Stable P) (hcount : ∀ {m : Monitor} (ctx : Int64), P m → P (m.countAccess ctx))
    (h : P m) (cs : List Call) : P (m.calls cs) := by
  induction cs generalizing m with
  | nil => exact h
  | cons c cs ih => exact ih (hP.call h fun ctx _ => hcount ctx h)

/-- What every move keeps is kept by whatever a session does. -/
theorem moves (hP : Stable P) (haccess : ∀ {m : Monitor} (ctx : Int64) (row : AccessRow), P m →
      row.txn = (m.innermost? ctx).map Txn.id → P ((m.countAccess ctx).write (.access row)))
    {purging : Bool} {m' : Monitor} (hmoves : Moves purging m m') (h : P m) : P m' := by
  induction hmoves with
  | refl => exact h
  | outputs os _ hquiet ih => exact hP.outputs ih hquiet
  | locks locks _ ih => exact hP.locks locks ih
  | openTxn key side ctx time _ ih => exact hP.openTxn key side ctx time ih
  | closeTxn key side ctx time purge _ _ ih => exact hP.closeTxn key side ctx time purge ih
  | access ctx row _ hrow ih => exact haccess ctx row ih hrow

theorem closeAll (hP : Stable P) (h : P m) (time : UInt64) : P (m.closeAll time) := by
  apply closeAll_induction (P := P) _ _ h
  · intro m' count ctx hm
    exact hP.remark hm (r := .stillActive count ctx) trivial
  · intro m' ctx top below hm _
    exact hP.closeTxn top.lock top.side ctx time false hm

end Stable

end Monitor

end LockTrace
