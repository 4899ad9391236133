import LockTrace.Proofs.HeldRows
import Mathlib.Data.List.Nodup

/-!
# The table of locks

Every side of every lock that was ever live has a row with a number of its own, written when
the lock was created (`Numbered`). The rows on held sub-locks name such numbers, and the table
of locks tells which address and side a number stands for (`place?`). For the sub-lock of an
open transaction this is where the transaction is anchored (`Numbered.place?_of_subLockId?`),
and what the table tells once it tells ever after (`place?_of_append`).
-/

namespace LockTrace

/-! ### Numbers of a new lock -/

namespace SubLocks

theorem id?_assign {kind : LockKind} {ids : Counter} {side : Side} {id : Nat}
    (h : (assign kind ids).1.id? side = some id) :
    ids.next ≤ id ∧ id < (assign kind ids).2.next := by
  cases kind <;> cases side <;>
    simp only [assign, id?, Counter.advance, Option.some.injEq, reduceCtorEq] at h ⊢ <;> omega

theorem nodup_sides_assign (kind : LockKind) (ids : Counter) :
    ((assign kind ids).1.sides.map Prod.snd).Nodup := by
  cases kind <;> simp [assign, sides, Counter.advance]

/-- The numbers up to those of a new lock, and these. -/
theorem range'_sides_assign_perm (kind : LockKind) {ids : Counter} (hpos : 0 < ids.next) :
    (List.range' 1 ids.issued ++ (assign kind ids).1.sides.map Prod.snd).Perm
      (List.range' 1 (assign kind ids).2.issued) := by
  obtain ⟨_ | n⟩ := ids
  · exact absurd hpos (Nat.lt_irrefl 0)
  cases kind with
  | readerOnly => simp [assign, sides, Counter.advance, Counter.issued, List.range'_concat,
      Nat.add_comm]
  | writerOnly => simp [assign, sides, Counter.advance, Counter.issued, List.range'_concat,
      Nat.add_comm]
  | readerWriter =>
    simp only [assign, sides, Counter.advance, Counter.issued, List.range'_concat,
      Nat.add_sub_cancel, Nat.one_mul, Nat.add_comm 1, List.append_assoc, List.map_cons,
      List.map_nil, List.singleton_append]
    exact (List.Perm.swap _ _ _).append_left _

theorem next_le_assign (kind : LockKind) (ids : Counter) : ids.next ≤ (assign kind ids).2.next := by
  cases kind <;> simp only [assign, Counter.advance] <;> omega

end SubLocks

/-! ### The rows so far -/

namespace Output

def lockRow? : Output → Option LockRow
  | .record (.lock row) => some row
  | _ => none

theorem filterMap_eq_nil_of_none {α : Type} {f : Output → Option α} {os : List Output}
    (h : ∀ o ∈ os, f o = none) : os.filterMap f = [] :=
  List.filterMap_eq_nil_iff.mpr h

end Output

namespace Monitor

def lockTable (m : Monitor) : List LockRow := m.outputs.filterMap Output.lockRow?

/-- The address and the side for which a number of the table of locks stands. -/
def place? (m : Monitor) (id : Nat) : Option (UInt64 × Side) :=
  (m.lockTable.find? (fun row => decide (row.id = id))).map fun row => (row.address, row.side)

/-- The places of the sub-locks that the rows on a transaction name. -/
def named (m : Monitor) (txn : Nat) : List (Option (UInt64 × Side)) :=
  (Output.heldRowsOf txn m.outputs).map fun row => m.place? row.lock

theorem lockTable_of_append {m m' : Monitor} {os : List Output} (h : m'.outputs = m.outputs ++ os) :
    m'.lockTable = m.lockTable ++ os.filterMap Output.lockRow? := by
  unfold lockTable
  rw [h, List.filterMap_append]

/-- More rows do not change what a number stands for. -/
theorem place?_of_append {m m' : Monitor} {os : List Output} (h : m'.outputs = m.outputs ++ os)
    {id : Nat} {p : UInt64 × Side} (hplace : m.place? id = some p) : m'.place? id = some p := by
  unfold place? at hplace ⊢
  obtain ⟨row, hrow, hp⟩ := Option.map_eq_some_iff.mp hplace
  rw [lockTable_of_append h, List.find?_append, hrow]
  exact congrArg some hp

theorem lockTable_closeTxn (m : Monitor) (key : Nat) (side : Side) (ctx : Int64) (time : UInt64)
    (purge : Bool) : (m.closeTxn key side ctx time purge).2.lockTable = m.lockTable :=
  m.filterMap_outputs_closeTxn key side ctx time purge (fun _ => rfl) (fun _ => rfl)
    (fun _ => rfl) (fun _ => rfl)

theorem lockRow?_lockRows (l : Lock) :
    (lockRows l).filterMap Output.lockRow? = l.subLocks.sides.map fun s =>
      ⟨s.2, l.address, l.allocation, l.label, s.1, l.varName, l.flags⟩ := by
  unfold lockRows
  rw [List.filterMap_map]
  exact congrFun List.filterMap_eq_map' _

/-! ### Every side has its row -/

/-- The numbers in the table of locks are different, the next one is new, and every side of a
    live lock is there. -/
structure Numbered (m : Monitor) : Prop where
  nodup : (m.lockTable.map LockRow.id).Nodup
  below : ∀ row ∈ m.lockTable, row.id < m.locks.subLockIds.next
  rows : ∀ key lock, m.locks.get? key = some lock → ∀ side id, lock.subLocks.id? side = some id →
    ∃ row ∈ m.lockTable, row.id = id ∧ row.address = lock.address ∧ row.side = side

namespace Numbered

variable {m m' : Monitor}

theorem initial (skipEmpty : Bool) : (Monitor.initial skipEmpty).Numbered where
  nodup := List.nodup_nil
  below row hrow := by cases hrow
  rows key lock hget := by cases hget

theorem place?_eq (h : m.Numbered) {key : Nat} {lock : Lock} {side : Side} {id : Nat}
    (hget : m.locks.get? key = some lock) (hid : lock.subLocks.id? side = some id) :
    m.place? id = some (lock.address, side) := by
  obtain ⟨row, hrow, hrowId, haddress, hside⟩ := h.rows key lock hget side id hid
  have hfound : m.lockTable.find? (fun r => decide (r.id = id)) = some row := by
    have hsome : (m.lockTable.find? (fun r => decide (r.id = id))).isSome :=
      List.find?_isSome.mpr ⟨row, hrow, decide_eq_true hrowId⟩
    obtain ⟨found, hfound⟩ := Option.isSome_iff_exists.mp hsome
    have hfoundId : found.id = id := by simpa using List.find?_some hfound
    have hsame : found = row := List.inj_on_of_nodup_map h.nodup (List.mem_of_find?_eq_some hfound)
      hrow (hfoundId.trans hrowId.symm)
    rw [hfound, hsame]
  unfold place?
  rw [hfound, Option.map_some, haddress, hside]

/-- The number of a transaction's sub-lock stands for the place of the transaction. -/
theorem place?_of_subLockId? (h : m.Numbered) {t : Txn} {id : Nat}
    (hid : m.locks.subLockId? t = some id) : m.place? id = m.locks.anchor? t := by
  obtain ⟨lock, hget, hside⟩ := Option.bind_eq_some_iff.mp hid
  rw [h.place?_eq hget hside, LockStore.anchor?_of_get? hget]

/-- Neither the table nor the live locks but for their states change, or locks go. -/
theorem of_same (h : m.Numbered) (htable : m'.lockTable = m.lockTable)
    (hids : m'.locks.subLockIds = m.locks.subLockIds)
    (hlocks : ∀ key lock', m'.locks.get? key = some lock' →
      ∃ lock, m.locks.get? key = some lock ∧ lock.Same lock') : m'.Numbered where
  nodup := by
    rw [htable]
    exact h.nodup
  below row hrow := by
    rw [htable] at hrow
    rw [hids]
    exact h.below row hrow
  rows key lock' hget' side id hid := by
    obtain ⟨lock, hget, hsame⟩ := hlocks key lock' hget'
    rw [hsame.subLocks] at hid
    rw [htable, hsame.address]
    exact h.rows key lock hget side id hid

theorem withLock (h : m.Numbered) (address : UInt64) (label : String) (kind : LockKind)
    (flags : UInt32) (placement : Placement) :
    (m.withLock address label kind flags placement).Numbered := by
  have htable := lockTable_of_append (m.outputs_withLock address label kind flags placement)
  rw [lockRow?_lockRows] at htable
  have hsides : ((m.locks.newLock address label kind placement).setFlags flags).subLocks =
      (SubLocks.assign kind m.locks.subLockIds).1 := rfl
  have hids : (m.withLock address label kind flags placement).locks.subLockIds =
      (SubLocks.assign kind m.locks.subLockIds).2 := rfl
  rw [hsides] at htable
  constructor
  · rw [htable, List.map_append, List.map_map]
    apply List.nodup_append.mpr
    refine ⟨h.nodup, SubLocks.nodup_sides_assign kind m.locks.subLockIds, ?_⟩
    intro i hi j hj
    obtain ⟨row, hrow, rfl⟩ := List.mem_map.mp hi
    obtain ⟨s, hs, rfl⟩ := List.mem_map.mp hj
    have hold := h.below row hrow
    have hnew := (SubLocks.id?_assign (SubLocks.mem_sides.mp hs)).1
    exact Nat.ne_of_lt (Nat.lt_of_lt_of_le hold hnew)
  · intro row hrow
    rw [htable] at hrow
    rw [hids]
    rcases List.mem_append.mp hrow with hrow | hrow
    · exact Nat.lt_of_lt_of_le (h.below row hrow) (SubLocks.next_le_assign kind _)
    · obtain ⟨s, hs, rfl⟩ := List.mem_map.mp hrow
      exact (SubLocks.id?_assign (SubLocks.mem_sides.mp hs)).2
  · intro key lock hget side id hid
    rw [get?_withLock] at hget
    rw [htable]
    split at hget
    · cases hget
      refine ⟨_, List.mem_append_right _ (List.mem_map.mpr
        ⟨(side, id), SubLocks.mem_sides.mpr hid, rfl⟩), rfl, rfl, rfl⟩
    · obtain ⟨row, hrow, hrest⟩ := h.rows key lock hget side id hid
      exact ⟨row, List.mem_append_left _ hrow, hrest⟩

end Numbered

end Monitor

end LockTrace
