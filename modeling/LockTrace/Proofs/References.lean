import LockTrace.Proofs.LockReferences
import Mathlib.Data.List.Range

/-!
# What rows refer to

Rows refer to other rows by their numbers. An allocation has its row when it ends, or with the
end of the trace, and rows on accesses and locks name it before. So until then the heap stands in
for the row: a number that a row names is that of an allocation row or of an active allocation,
and the address lies in it (`Heap.Backs`). In the end nothing is active, and every number is found
among the rows (`Session.resolved_of_run`).
-/

namespace LockTrace

/-! ### Rows of allocations and data types -/

namespace Record

def dataTypeRow? : Record → Option DataTypeRow
  | dataType row => some row
  | _ => none

def allocationRow? : Record → Option AllocationRow
  | allocation row => some row
  | _ => none

def dataTypes (rs : List Record) : List DataTypeRow := rs.filterMap dataTypeRow?

def allocations (rs : List Record) : List AllocationRow := rs.filterMap allocationRow?

/-- The allocation that a row on an access or a lock names, and the address that lies in it. -/
def located? : Record → Option (Nat × UInt64)
  | access row => row.allocation.map (·, row.address)
  | lock row => row.allocation.map (·, row.address)
  | _ => none

/-- The data type of an allocation row has its row. -/
def AllocatedAfter (before : List Record) (r : Record) : Prop :=
  ∀ row, r = .allocation row → ∃ d, .dataType d ∈ before ∧ d.id = row.typeId

theorem dataTypes_append (rs rs' : List Record) :
    dataTypes (rs ++ rs') = dataTypes rs ++ dataTypes rs' := List.filterMap_append

theorem allocations_append (rs rs' : List Record) :
    allocations (rs ++ rs') = allocations rs ++ allocations rs' := List.filterMap_append

theorem mem_dataTypes {rs : List Record} {row : DataTypeRow} :
    row ∈ dataTypes rs ↔ .dataType row ∈ rs :=
  mem_filterMap_iff_of_inverse fun r row => by cases r <;> simp [dataTypeRow?]

theorem mem_allocations {rs : List Record} {row : AllocationRow} :
    row ∈ allocations rs ↔ .allocation row ∈ rs :=
  mem_filterMap_iff_of_inverse fun r row => by cases r <;> simp [allocationRow?]

end Record

/-! ### Rows of numbered names -/

namespace Interner

/-- The rows of the names, each with its number. -/
def rows (s : Interner) : List DataTypeRow := (s.names.zipIdx 1).map fun (name, id) => ⟨id, name⟩

/-- The row that comes with a name, if it is new. -/
def newRows (s : Interner) (name : String) : List DataTypeRow :=
  if name ∈ s.names then [] else [⟨(s.insert name).numberOf name, name⟩]

variable (s : Interner) (name : String)

theorem ids_rows : s.rows.map DataTypeRow.id = List.range' 1 s.size := by
  rw [rows, List.map_map]
  exact List.zipIdx_map_snd ..

theorem names_rows : s.rows.map DataTypeRow.name = s.names := by
  rw [rows, List.map_map]
  exact List.zipIdx_map_fst ..

theorem rows_insert : (s.insert name).rows = s.rows ++ s.newRows name := by
  unfold newRows
  split
  · next hmem => rw [insert_of_mem hmem, List.append_nil]
  · next hmem =>
    rw [numberOf_insert, numberOf_of_not_mem hmem, rows, names_insert_of_not_mem hmem,
      List.zipIdx_append, List.map_append, Nat.add_comm]
    rfl

theorem size_le_insert : s.size ≤ (s.insert name).size := by
  by_cases hmem : name ∈ s.names
  · rw [insert_of_mem hmem]
  · simp [size, names_insert_of_not_mem hmem]

theorem numberOf_insert_le : (s.insert name).numberOf name ≤ (s.insert name).size := by
  have hmem : name ∈ (s.insert name).names := by
    by_cases hmem : name ∈ s.names
    · rwa [insert_of_mem hmem]
    · simp [names_insert_of_not_mem hmem]
  exact List.idxOf_lt_length_iff.mpr hmem

end Interner

/-! ### The heap stands in for rows to come -/

namespace Heap

/-- The number is that of an allocation which is active or has its row, and the address lies in
    it. -/
def Locates (h : Heap) (rs : List Record) (id : Nat) (address : UInt64) : Prop :=
  ∃ a : Allocation, a.id = id ∧ a.Contains address ∧
    (a ∈ h.active.values ∨ ∃ stop, .allocation (a.row stop) ∈ rs)

/-- The heap and the rows so far make up for each other. -/
structure Backs (h : Heap) (rs : List Record) : Prop where
  dataTypes : Record.dataTypes rs = h.types.rows
  types : ∀ a ∈ h.active.values, 0 < a.typeId ∧ a.typeId ≤ h.types.size
  succession : Successive Record.AllocatedAfter [] rs
  positive : 0 < h.ids.next
  ids : ((Record.allocations rs).map AllocationRow.id ++ h.active.values.map Allocation.id).Perm
    (List.range' 1 h.ids.issued)
  located : ∀ r ∈ rs, ∀ id address, r.located? = some (id, address) → h.Locates rs id address

namespace Backs

variable {h : Heap} {rs : List Record}

theorem initial (tracked : Option (List String)) : (Heap.initial tracked).Backs [] where
  dataTypes := rfl
  types _ ha := by cases ha
  succession := trivial
  positive := Nat.one_pos
  ids := List.Perm.refl _
  located _ hr := by cases hr

theorem locates_append {id : Nat} {address : UInt64} (hl : h.Locates rs id address)
    (rs' : List Record) : h.Locates (rs ++ rs') id address := by
  obtain ⟨a, hid, hcontains, hactive | ⟨stop, hrow⟩⟩ := hl
  · exact ⟨a, hid, hcontains, Or.inl hactive⟩
  · exact ⟨a, hid, hcontains, Or.inr ⟨stop, List.mem_append_left _ hrow⟩⟩

/-- Every allocation that was active is so still, or has its row now. -/
theorem located_append (hb : h.Backs rs) {h' : Heap} {rs' : List Record}
    (hrows : ∀ r ∈ rs', r.located? = none)
    (hactive : ∀ a ∈ h.active.values, a ∈ h'.active.values ∨
      ∃ stop, .allocation (a.row stop) ∈ rs') :
    ∀ r ∈ rs ++ rs', ∀ id address, r.located? = some (id, address) →
      h'.Locates (rs ++ rs') id address := by
  intro r hr id address hl
  have hmem : r ∈ rs := by
    rcases List.mem_append.mp hr with hr | hr
    · exact hr
    · rw [hrows r hr] at hl
      cases hl
  obtain ⟨a, hid, hcontains, ha | ⟨stop, hrow⟩⟩ := hb.located r hmem id address hl
  · rcases hactive a ha with ha | ⟨stop, hrow⟩
    · exact ⟨a, hid, hcontains, Or.inl ha⟩
    · exact ⟨a, hid, hcontains, Or.inr ⟨stop, List.mem_append_right _ hrow⟩⟩
  · exact ⟨a, hid, hcontains, Or.inr ⟨stop, List.mem_append_left _ hrow⟩⟩

/-- The type of an active allocation has its row. -/
theorem exists_dataType (hb : h.Backs rs) {a : Allocation} (ha : a ∈ h.active.values) :
    ∃ d, .dataType d ∈ rs ∧ d.id = a.typeId := by
  obtain ⟨hpos, hle⟩ := hb.types a ha
  have hmem : a.typeId ∈ (Record.dataTypes rs).map DataTypeRow.id := by
    rw [hb.dataTypes, Interner.ids_rows, List.mem_range'_1]
    omega
  obtain ⟨d, hd, hid⟩ := List.mem_map.mp hmem
  exact ⟨d, Record.mem_dataTypes.mp hd, hid⟩

/-- More rows, but none on data types and allocations. -/
theorem append (hb : h.Backs rs) {rs' : List Record}
    (hrows : ∀ r ∈ rs', r.dataTypeRow? = none ∧ r.allocationRow? = none)
    (hlocated : ∀ r ∈ rs', ∀ id address, r.located? = some (id, address) →
      h.Locates rs id address) : h.Backs (rs ++ rs') := by
  have htypes : Record.dataTypes rs' = [] :=
    List.filterMap_eq_nil_iff.mpr fun r hr => (hrows r hr).1
  have hallocations : Record.allocations rs' = [] :=
    List.filterMap_eq_nil_iff.mpr fun r hr => (hrows r hr).2
  refine ⟨?_, hb.types, ?_, hb.positive, ?_, ?_⟩
  · rw [Record.dataTypes_append, htypes, List.append_nil]
    exact hb.dataTypes
  · refine Successive.append_iff.mpr ⟨hb.succession, Successive.of_forall ?_⟩
    rintro r hr later row rfl
    cases (hrows _ hr).2
  · rw [Record.allocations_append, hallocations, List.append_nil]
    exact hb.ids
  · intro r hr id address hl
    apply locates_append
    rcases List.mem_append.mp hr with hr | hr
    · exact hb.located r hr id address hl
    · exact hlocated r hr id address hl

/-- An allocation of the next number begins where none is active. -/
theorem accept (hb : h.Backs rs) {base : UInt64} (hfree : h.active.get? base = none)
    (size : UInt64) (typeName : String) (time : UInt64) :
    { h with
      active := h.active.insert base
        ⟨h.ids.next, (h.types.insert typeName).numberOf typeName, base, size, time⟩
      ids := h.ids.advance
      types := h.types.insert typeName : Heap }.Backs
    (rs ++ (h.types.newRows typeName).map .dataType) := by
  have hvalues := AscMap.values_insert_perm hfree
  have hrows : ∀ r ∈ (h.types.newRows typeName).map Record.dataType,
      r.allocationRow? = none ∧ r.located? = none := by
    intro r hr
    obtain ⟨row, _, rfl⟩ := List.mem_map.mp hr
    exact ⟨rfl, rfl⟩
  refine ⟨?_, ?_, ?_, Nat.succ_pos _, ?_, ?_⟩
  · rw [Record.dataTypes_append, hb.dataTypes, Interner.rows_insert, Record.dataTypes,
      List.filterMap_map]
    exact congrArg _ List.filterMap_some
  · intro a ha
    rcases List.mem_cons.mp ((hvalues _).subset ha) with rfl | ha
    · exact ⟨Nat.succ_pos _, Interner.numberOf_insert_le _ _⟩
    · obtain ⟨hpos, hle⟩ := hb.types a ha
      exact ⟨hpos, Nat.le_trans hle (Interner.size_le_insert _ _)⟩
  · refine Successive.append_iff.mpr ⟨hb.succession, Successive.of_forall ?_⟩
    rintro r hr later row rfl
    cases (hrows _ hr).1
  · have hnone : Record.allocations ((h.types.newRows typeName).map .dataType) = [] :=
      List.filterMap_eq_nil_iff.mpr fun r hr => (hrows r hr).1
    have hrange : List.range' 1 h.ids.advance.issued =
        List.range' 1 h.ids.issued ++ [h.ids.next] := Monitor.issued_advance hb.positive 1
    rw [Record.allocations_append, hnone, List.append_nil, hrange]
    refine (((hvalues _).map Allocation.id).append_left _).trans ?_
    refine List.perm_middle.trans ?_
    exact (hb.ids.cons _).trans (List.perm_append_singleton _ _).symm
  · apply hb.located_append fun r hr => (hrows r hr).2
    exact fun a ha => Or.inl ((hvalues _).symm.subset (List.mem_cons_of_mem _ ha))

theorem allocate (hb : h.Backs rs) (base size : UInt64) (typeName : String) (time : UInt64) :
    (h.allocate base size typeName time).heap.Backs
      (rs ++ (h.allocate base size typeName time).outputs.filterMap Output.record?) := by
  unfold Heap.allocate
  split
  · exact hb.append (by simp [Output.record?]) (by simp [Output.record?])
  · next hbase =>
    split
    · have hfree : h.active.get? base = none := by simpa [AscMap.contains] using hbase
      have haccept := hb.accept hfree size typeName time
      unfold Interner.newRows at haccept
      simp only
      split
      · next hmem =>
        rw [if_pos hmem] at haccept
        exact haccept
      · next hmem =>
        rw [if_neg hmem] at haccept
        exact haccept
    · exact hb.append (by simp [Output.record?]) (by simp [Output.record?])

/-- Some allocations end, and their rows are written. -/
theorem release (hb : h.Backs rs) (h' : Heap) {ended : List Allocation}
    (htypes : h'.types = h.types) (hids : h'.ids = h.ids)
    (hperm : h.active.values.Perm (ended ++ h'.active.values)) (stop : Option UInt64) :
    h'.Backs (rs ++ ended.map fun a => .allocation (a.row stop)) := by
  have hrows : ∀ r ∈ ended.map fun a => Record.allocation (a.row stop),
      r.dataTypeRow? = none ∧ r.located? = none := by
    intro r hr
    obtain ⟨a, _, rfl⟩ := List.mem_map.mp hr
    exact ⟨rfl, rfl⟩
  refine ⟨?_, ?_, ?_, hids ▸ hb.positive, ?_, ?_⟩
  · have hnone : Record.dataTypes (ended.map fun a => .allocation (a.row stop)) = [] :=
      List.filterMap_eq_nil_iff.mpr fun r hr => (hrows r hr).1
    rw [Record.dataTypes_append, hnone, List.append_nil, htypes]
    exact hb.dataTypes
  · intro a ha
    rw [htypes]
    exact hb.types a (hperm.symm.subset (List.mem_append_right _ ha))
  · refine Successive.append_iff.mpr ⟨hb.succession, Successive.of_forall ?_⟩
    rintro r hr later row rfl
    obtain ⟨a, ha, hrow⟩ := List.mem_map.mp hr
    cases hrow
    obtain ⟨d, hd, hid⟩ := hb.exists_dataType (hperm.symm.subset (List.mem_append_left _ ha))
    exact ⟨d, List.mem_append_left _ hd, hid⟩
  · have hended : (Record.allocations (ended.map fun a => .allocation (a.row stop))).map
        AllocationRow.id = ended.map Allocation.id := by
      rw [Record.allocations, List.filterMap_map, List.map_filterMap]
      exact congrFun List.filterMap_eq_map' _
    rw [Record.allocations_append, List.map_append, hended, List.append_assoc, ← List.map_append,
      hids]
    exact ((hperm.map Allocation.id).symm.append_left _).trans hb.ids
  · apply hb.located_append fun r hr => (hrows r hr).2
    intro a ha
    rcases List.mem_append.mp (hperm.subset ha) with ha | ha
    · exact Or.inr ⟨stop, List.mem_map.mpr ⟨a, ha, rfl⟩⟩
    · exact Or.inl ha

theorem free (hb : h.Backs rs) (base time : UInt64) :
    (h.free base time).heap.Backs
      (rs ++ (h.free base time).outputs.filterMap Output.record?) := by
  unfold Heap.free
  cases hget : h.active.get? base with
  | none => exact hb.append (by simp [Output.record?]) (by simp [Output.record?])
  | some a =>
    have hperm : h.active.values.Perm ([a] ++ (h.active.erase base).values) :=
      AscMap.values_perm_cons_erase hget
    exact hb.release { h with active := h.active.erase base } rfl rfl hperm (some time)

theorem finish (hb : h.Backs rs) :
    h.finish.heap.Backs (rs ++ h.active.values.map fun a => .allocation (a.row none)) :=
  hb.release h.finish.heap rfl rfl (List.Perm.of_eq (List.append_nil _).symm) none

/-! ### Whatever a session does -/

variable {m m' : Monitor}

/-- Nothing that is written is about data types or allocations. -/
theorem keep (hb : h.Backs m.journal.records) {os : List Output}
    (houtputs : m'.outputs = m.outputs ++ os)
    (hos : ∀ r, .record r ∈ os → r.dataTypeRow? = none ∧ r.allocationRow? = none ∧
      r.located? = none) : h.Backs m'.journal.records := by
  have hrecords : ∀ r ∈ os.filterMap Output.record?, r.dataTypeRow? = none ∧
      r.allocationRow? = none ∧ r.located? = none :=
    fun r hr => hos r (Output.mem_records_iff.mp hr)
  rw [Monitor.records_of_append houtputs]
  apply hb.append
  · exact fun r hr => ⟨(hrecords r hr).1, (hrecords r hr).2.1⟩
  · intro r hr id address hl
    rw [(hrecords r hr).2.2] at hl
    cases hl

theorem closeTxn (hb : h.Backs m.journal.records) (key : Nat) (side : Side) (ctx : Int64)
    (time : UInt64) (purge : Bool) :
    h.Backs (m.closeTxn key side ctx time purge).2.journal.records := by
  apply hb.keep (m.outputs_closeTxn key side ctx time purge)
  intro r hr
  rcases LockStore.txn_or_held_of_mem_unwindOutputs _ _ _ _ _ _ _ hr with ⟨row, rfl⟩ | ⟨row, rfl⟩
  · exact ⟨rfl, rfl, rfl⟩
  · exact ⟨rfl, rfl, rfl⟩

theorem step (hb : h.Backs m.journal.records) (key : Nat) (t : Transition) :
    h.Backs (m.step key t).1.journal.records := by
  apply Monitor.step_induction (P := fun m => h.Backs m.journal.records) _ _ _ _ hb
  · intro m i _ hb
    exact hb.keep (m.outputs_withOutputs [.report i]) (by simp)
  · exact fun _ _ _ hb => hb
  · exact fun _ hb => hb
  · exact fun m side owner purge hb _ => hb.closeTxn key side owner t.time purge

theorem closeAll (hb : h.Backs m.journal.records) (time : UInt64) :
    h.Backs (m.closeAll time).journal.records := by
  apply Monitor.closeAll_induction (P := fun m => h.Backs m.journal.records) _ _ hb
  · intro m count ctx hb
    exact hb.keep (m.outputs_withOutputs [.remark (.stillActive count ctx)]) (by simp)
  · exact fun m ctx top below hb _ => hb.closeTxn top.lock top.side ctx time false

end Backs

/-- The allocation around an address is active and contains it. -/
theorem mem_of_containing? {h : Heap} {address : UInt64} {a : Allocation}
    (ha : h.containing? address = some a) : a ∈ h.active.values ∧ a.Contains address := by
  obtain ⟨hfloor, hcontains⟩ := Option.filter_eq_some_iff.mp ha
  obtain ⟨e, he, rfl⟩ := Option.map_eq_some_iff.mp hfloor
  have hmem : e ∈ h.active.entries :=
    (List.takeWhile_sublist _).subset (List.mem_of_getLast? he)
  exact ⟨List.mem_map_of_mem hmem, of_decide_eq_true hcontains⟩

/-- Rows that name the allocation around an address. -/
theorem Backs.around {h : Heap} {rs rs' : List Record} (hb : h.Backs rs) {address : UInt64}
    (hrows : ∀ r ∈ rs', (r.dataTypeRow? = none ∧ r.allocationRow? = none) ∧
      r.located? = ((h.containing? address).map Allocation.id).map (·, address)) :
    h.Backs (rs ++ rs') := by
  apply hb.append fun r hr => (hrows r hr).1
  intro r hr id address' hl
  rw [(hrows r hr).2, Option.map_map] at hl
  obtain ⟨a, ha, heq⟩ := Option.map_eq_some_iff.mp hl
  cases heq
  obtain ⟨hmem, hcontains⟩ := mem_of_containing? ha
  exact ⟨a, rfl, hcontains, Or.inl hmem⟩

end Heap

namespace Session

theorem allocation_place (s : Session) (address : UInt64) :
    (s.place address).allocation = (s.heap.containing? address).map Allocation.id := by
  unfold place
  split
  · next a ha => rw [ha, Option.map_some]
  · next hnone => rw [hnone, Option.map_none]

theorem heap_freeEvent (s : Session) (e : Event) :
    (s.freeEvent e).heap = (s.heap.free e.address e.time).heap := by
  unfold freeEvent
  simp only
  split <;> rfl

theorem backs_withLock {s : Session} (hb : s.heap.Backs s.journal.records) (address : UInt64)
    (label : String) (kind : LockKind) (flags : UInt32) :
    s.heap.Backs (s.monitor.withLock address label kind flags
      (s.place address)).journal.records := by
  rw [Monitor.records_of_append (Monitor.outputs_withLock ..)]
  apply hb.around
  intro r hr
  obtain ⟨side, _, hrow⟩ := List.mem_map.mp (Output.mem_records_iff.mp hr)
  cases hrow
  rw [← s.allocation_place address]
  exact ⟨⟨rfl, rfl⟩, rfl⟩

theorem keptAt_backs (time : UInt64) : KeptAt time fun s => s.heap.Backs s.journal.records where
  same hb hmonitor hheap := by
    unfold journal
    rw [hmonitor, hheap]
    exact hb
  unseen lock op ctx hb := hb.keep (Monitor.outputs_withOutputs _ [_]) (by simp)
  access {s} a hb := by
    unfold journal
    rw [Monitor.records_of_append (s.outputs_writeAccess a)]
    exact hb.around (List.forall_mem_singleton.mpr ⟨⟨rfl, rfl⟩, rfl⟩)
  withLock address label kind flags _ hb := backs_withLock hb address label kind flags
  operate key t _ hb := hb.step key t
  alloc {s} e size hb := by
    unfold journal
    rw [Monitor.records_of_append (s.outputs_allocEvent e size)]
    exact hb.allocate e.address size e.typeName e.time
  free {s} e hb := by
    obtain ⟨reports, houtputs⟩ := s.outputs_freeEvent e
    have hfree : (s.freeEvent e).heap.Backs (s.monitor.journal.records ++
        (s.heap.free e.address e.time).outputs.filterMap Output.record?) := by
      rw [heap_freeEvent]
      exact hb.free e.address e.time
    unfold journal
    rw [Monitor.records_of_append houtputs, List.filterMap_append,
      Output.filterMap_record?_reports, List.append_nil]
    exact hfree

theorem backs_finish {s : Session} (hb : s.heap.Backs s.journal.records) :
    s.finish.heap.Backs s.finish.journal.records := by
  have hflush : (s.flush none).heap.Backs (s.flush none).monitor.journal.records :=
    (keptAt_backs 0).flush hb none
  obtain ⟨m, hm⟩ : ∃ m, m = if (s.flush none).monitor.isIdle then (s.flush none).monitor
      else (s.flush none).monitor.remark (.closing (s.flush none).lastTime) := ⟨_, rfl⟩
  have hremark : (s.flush none).heap.Backs m.journal.records := by
    rw [hm]
    split
    · exact hflush
    · exact hflush.keep (Monitor.outputs_withOutputs _ [.remark _]) (by simp)
  have hclosed := (hremark.closeAll (s.flush none).lastTime).finish
  have hfinish : s.finish.monitor = (m.closeAll (s.flush none).lastTime).withOutputs
      ((s.flush none).heap.finish.outputs ++ [Output.record .flush]) := by
    rw [hm]
    rfl
  have hrows : ((s.flush none).heap.finish.outputs ++ [Output.record .flush]).filterMap
      Output.record? =
        ((s.flush none).heap.active.values.map fun a => .allocation (a.row none)) ++
          [Record.flush] := by
    rw [List.filterMap_append, Heap.finish, List.filterMap_map]
    exact congrArg (· ++ [Record.flush]) (congrFun List.filterMap_eq_map' _)
  unfold journal
  rw [hfinish, Monitor.records_of_append (Monitor.outputs_withOutputs _ _), hrows,
    ← List.append_assoc]
  exact hclosed.append (by simp [Record.dataTypeRow?, Record.allocationRow?])
    (by simp [Record.located?])

end Session

/-! ### References of a whole run -/

/-- If there is a number of an allocation, exactly one row on an allocation has it, and the
    address lies in that allocation. -/
def Record.Placed (rs : List Record) (allocation : Option Nat) (address : UInt64) : Prop :=
  ∀ id, allocation = some id →
    ∃ a, (Record.allocations rs).filter (fun a => decide (a.id = id)) = [a] ∧
      a.base.toNat ≤ address.toNat ∧ address.toNat < a.base.toNat + a.size.toNat

namespace Session

/-- What the rows of a session refer to. -/
structure Resolved (s : Session) : Prop where
  /-- A held sub-lock belongs to the transaction that was written last and has its row. -/
  held : ∀ before after row, s.journal.records = before ++ .held row :: after →
    Record.lastTxn? before = some row.txn ∧ ∃ l, .lock l ∈ before ∧ l.id = row.lock
  /-- The data type of an allocation has its row before. -/
  types : ∀ before after row, s.journal.records = before ++ .allocation row :: after →
    ∃ d, .dataType d ∈ before ∧ d.id = row.typeId
  accesses : ∀ row, .access row ∈ s.journal.records →
    Record.Placed s.journal.records row.allocation row.address
  locks : ∀ row, .lock row ∈ s.journal.records →
    Record.Placed s.journal.records row.allocation row.address
  typeIds : (Record.dataTypes s.journal.records).map DataTypeRow.id =
    List.range' 1 s.summary.dataTypes
  typeNames : ((Record.dataTypes s.journal.records).map DataTypeRow.name).Nodup
  lockIds : (s.monitor.lockTable.map LockRow.id).Perm (List.range' 1 s.summary.subLocks)

/-- When nothing is active any more, every number is found among the rows. -/
theorem placed_of_backs {h : Heap} {rs : List Record} (hb : h.Backs rs) (hempty : h.active = ∅)
    {r : Record} (hr : r ∈ rs) {id : Nat} {address : UInt64}
    (hl : r.located? = some (id, address)) : Record.Placed rs (some id) address := by
  have hvalues : h.active.values = [] := by rw [hempty]; rfl
  obtain ⟨a, rfl, ⟨hbase, hsize⟩, ha | ⟨stop, hrow⟩⟩ := hb.located r hr id address hl
  · rw [hvalues] at ha
    cases ha
  rintro _ ⟨⟩
  refine ⟨a.row stop, ?_, ?_⟩
  · have hnodup : ((Record.allocations rs).map AllocationRow.id).Nodup := by
      have hids := hb.ids
      rw [hvalues, List.map_nil, List.append_nil] at hids
      exact hids.symm.nodup List.nodup_range'
    apply List.perm_singleton.mp
    apply (List.perm_ext_iff_of_nodup (hnodup.of_map.filter _) (List.nodup_singleton _)).mpr
    have hmem : a.row stop ∈ Record.allocations rs := Record.mem_allocations.mpr hrow
    intro row
    rw [List.mem_filter, List.mem_singleton, decide_eq_true_eq]
    constructor
    · rintro ⟨hrow', hid⟩
      exact List.inj_on_of_nodup_map hnodup hrow' hmem hid
    · rintro rfl
      exact ⟨hmem, rfl⟩
  · have hle : a.base.toNat ≤ address.toNat := UInt64.le_iff_toNat_le.mp hbase
    rw [UInt64.lt_iff_toNat_lt, UInt64.toNat_sub_of_le _ _ hbase] at hsize
    show a.base.toNat ≤ address.toNat ∧ address.toNat < a.base.toNat + a.size.toNat
    omega

/-- Whatever the events of a trace are, in the end the rows refer to one another. -/
theorem resolved_of_run (config : Config) (symbols : SymbolTable) (es : List Event) :
    ((Session.initial config symbols).run es).1.finish.Resolved := by
  have hlinked : ((Session.initial config symbols).run es).1.finish.monitor.Linked :=
    Monitor.kept_linked.finish (Monitor.kept_linked.run (.initial _) es)
      (fun time h => h.closeAll time)
      (fun h hplain => h.withOutputs (fun _ hrow => hplain _ hrow) (fun _ hrow => hplain _ hrow))
  have hrun : ((Session.initial config symbols).run es).1.heap.Backs
      ((Session.initial config symbols).run es).1.journal.records :=
    run_induction (P := fun s => s.heap.Backs s.journal.records)
      (fun e _ hb => (keptAt_backs e.time).event hb) (.initial config.dataTypes)
  have hb := backs_finish hrun
  generalize ((Session.initial config symbols).run es).1 = s at hlinked hb
  have hempty : s.finish.heap.active = ∅ := rfl
  exact {
    held := by
      intro before after row hrecords
      have hheld := hlinked.held
      unfold journal at hrecords
      rw [hrecords] at hheld
      exact hheld.of_split row rfl
    types := by
      intro before after row hrecords
      have hsuccession := hb.succession
      rw [hrecords] at hsuccession
      exact hsuccession.of_split row rfl
    accesses := by
      intro row hrow id hid
      have hl : (Record.access row).located? = some (id, row.address) := by
        rw [Record.located?, hid, Option.map_some]
      exact placed_of_backs hb hempty hrow hl id rfl
    locks := by
      intro row hrow id hid
      have hl : (Record.lock row).located? = some (id, row.address) := by
        rw [Record.located?, hid, Option.map_some]
      exact placed_of_backs hb hempty hrow hl id rfl
    typeIds := by
      rw [hb.dataTypes, Interner.ids_rows]
      rfl
    typeNames := by
      rw [hb.dataTypes, Interner.names_rows]
      exact s.finish.heap.types.distinct
    lockIds := hlinked.lockIds }

end Session

end LockTrace
