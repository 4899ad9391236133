import LockTrace.Proofs.Lifetimes
import LockTrace.Proofs.References

/-!
# The allocations table

The rows of the allocations table are the lifetimes that the events of a trace have by
themselves. On the way the heap holds those that have no end so far, and the table those that
have one (`Heap.Follows`). An event that begins or ends no allocation makes one report, and
leaves the heap and the rows about it as they are (`Session.TurnsDown`).
-/

namespace LockTrace

/-! ### Rows about the heap -/

namespace Monitor

variable {m m' : Monitor}

def allocationTable (m : Monitor) : List AllocationRow := Record.allocations m.journal.records

def dataTypeTable (m : Monitor) : List DataTypeRow := Record.dataTypes m.journal.records

theorem allocationTable_of_append {os : List Output} (h : m'.outputs = m.outputs ++ os) :
    m'.allocationTable = m.allocationTable ++ Record.allocations (os.filterMap Output.record?) := by
  unfold allocationTable
  rw [records_of_append h, Record.allocations_append]

/-- The two tables on what the heap does are the same for both monitors. -/
structure SameHeapRows (m m' : Monitor) : Prop where
  allocations : m'.allocationTable = m.allocationTable
  dataTypes : m'.dataTypeTable = m.dataTypeTable

namespace SameHeapRows

theorem refl (m : Monitor) : m.SameHeapRows m := ⟨rfl, rfl⟩

theorem trans {m'' : Monitor} (h : m.SameHeapRows m') (h' : m'.SameHeapRows m'') :
    m.SameHeapRows m'' :=
  ⟨h'.allocations.trans h.allocations, h'.dataTypes.trans h.dataTypes⟩

theorem of_append {os : List Output} (houtputs : m'.outputs = m.outputs ++ os)
    (hos : ∀ r, .record r ∈ os → r.dataTypeRow? = none ∧ r.allocationRow? = none) :
    m.SameHeapRows m' := by
  have hrecords : ∀ r ∈ os.filterMap Output.record?,
      r.dataTypeRow? = none ∧ r.allocationRow? = none :=
    fun r hr => hos r (Output.mem_records_iff.mp hr)
  constructor
  · rw [allocationTable_of_append houtputs]
    refine (congrArg _ (List.filterMap_eq_nil_iff.mpr fun r hr => ?_)).trans (List.append_nil _)
    exact (hrecords r hr).2
  · rw [dataTypeTable, records_of_append houtputs, Record.dataTypes_append]
    refine (congrArg _ (List.filterMap_eq_nil_iff.mpr fun r hr => ?_)).trans (List.append_nil _)
    exact (hrecords r hr).1

end SameHeapRows

theorem sameHeapRows_closeTxn (m : Monitor) (key : Nat) (side : Side) (ctx : Int64)
    (time : UInt64) (purge : Bool) : m.SameHeapRows (m.closeTxn key side ctx time purge).2 := by
  refine .of_append (m.outputs_closeTxn key side ctx time purge) fun r hr => ?_
  rcases LockStore.txn_or_held_of_mem_unwindOutputs _ _ _ _ _ _ _ hr with ⟨row, rfl⟩ | ⟨row, rfl⟩
  · exact ⟨rfl, rfl⟩
  · exact ⟨rfl, rfl⟩

theorem sameHeapRows_step (m : Monitor) (key : Nat) (t : Transition) :
    m.SameHeapRows (m.step key t).1 := by
  apply step_induction (P := m.SameHeapRows) _ _ _ _ (.refl m)
  · exact fun m' i _ h => h.trans (.of_append (m'.outputs_withOutputs [.report i]) (by simp))
  · exact fun _ _ _ h => h.trans ⟨rfl, rfl⟩
  · exact fun _ h => h.trans ⟨rfl, rfl⟩
  · exact fun m' side owner purge h _ =>
      h.trans (m'.sameHeapRows_closeTxn key side owner t.time purge)

theorem sameHeapRows_closeAll (m : Monitor) (time : UInt64) :
    m.SameHeapRows (m.closeAll time) := by
  apply closeAll_induction (P := m.SameHeapRows) _ _ (.refl m)
  · exact fun m' count ctx h =>
      h.trans (.of_append (m'.outputs_withOutputs [.remark (.stillActive count ctx)]) (by simp))
  · exact fun m' ctx top below h _ =>
      h.trans (m'.sameHeapRows_closeTxn top.lock top.side ctx time false)

end Monitor

namespace Session

/-- The heap and the tables on what it does are the same for both sessions. -/
structure SameHeap (s s' : Session) : Prop where
  heap : s'.heap = s.heap
  rows : s.monitor.SameHeapRows s'.monitor

theorem keptByLocksAt_sameHeap (time : UInt64) (s₀ : Session) :
    KeptByLocksAt time (s₀.SameHeap ·) where
  same h hmonitor hheap := ⟨hheap.trans h.heap, hmonitor ▸ h.rows⟩
  unseen {s} lock op ctx h :=
    ⟨h.heap, h.rows.trans (.of_append (Monitor.outputs_withOutputs s.monitor [_]) (by simp))⟩
  access {s} a h := by
    refine ⟨h.heap, h.rows.trans (.of_append (s.outputs_writeAccess a) ?_)⟩
    simp [Record.dataTypeRow?, Record.allocationRow?]
  withLock {s} address label kind flags _ h := by
    refine ⟨h.heap, h.rows.trans (.of_append (s.monitor.outputs_withLock ..) ?_)⟩
    intro r hr
    obtain ⟨side, _, hrow⟩ := List.mem_map.mp hr
    cases hrow
    exact ⟨rfl, rfl⟩
  operate {s} key t _ h := ⟨h.heap, h.rows.trans (s.monitor.sameHeapRows_step key t)⟩

theorem sameHeap_flush (s : Session) (e : Event) (lock : Option (UInt64 × Int64)) :
    s.SameHeap ((s.note e).flush lock) :=
  have hkept := keptByLocksAt_sameHeap 0 s
  hkept.flush (hkept.note ⟨rfl, .refl s.monitor⟩ e) lock

theorem reports_flush (s : Session) (lock : Option (UInt64 × Int64)) :
    (s.flush lock).journal.reports = s.journal.reports :=
  flush_induction (P := fun m => m.journal.reports = s.journal.reports)
    (fun m ctx row _ h => by
      rw [← h]
      simp [Journal.reports, Monitor.write, Monitor.countAccess, Monitor.setStack, Output.report?])
    rfl lock

/-! ### Events that begin or end no allocation -/

/-- The session makes one report, and leaves the heap and the rows about it as they are. -/
structure TurnsDown (s s' : Session) (i : Inconsistency) : Prop where
  heap : s'.heap = s.heap
  allocations : s'.monitor.allocationTable = s.monitor.allocationTable
  dataTypes : s'.monitor.dataTypeTable = s.monitor.dataTypeTable
  reports : s'.journal.reports = s.journal.reports ++ [i]

theorem SameHeap.report {s s' : Session} (h : s.SameHeap s') (i : Inconsistency) :
    s.SameHeap (s'.addOutputs [.report i]) :=
  ⟨h.heap, h.rows.trans (.of_append (Monitor.outputs_withOutputs s'.monitor [_]) (by simp))⟩

theorem turnsDown_of_report (s : Session) (e : Event) (i : Inconsistency) :
    s.TurnsDown (((s.note e).flush none).addOutputs [.report i]) i where
  heap := (s.sameHeap_flush e none).heap
  allocations := ((s.sameHeap_flush e none).report i).rows.allocations
  dataTypes := ((s.sameHeap_flush e none).report i).rows.dataTypes
  reports := by
    have hflush : ((s.note e).flush none).journal.reports = s.journal.reports :=
      (s.note e).reports_flush none
    rw [← hflush]
    simp [Journal.reports, journal, addOutputs, Output.report?]

end Session

namespace Heap

section Cases

variable {h : Heap} {base size time : UInt64} {typeName : String}

theorem allocate_of_active (hactive : h.active.contains base = true) :
    h.allocate base size typeName time = ⟨h, none, [.report (.duplicateAllocation base time)]⟩ :=
  if_pos hactive

theorem allocate_of_untracked (hfree : ¬ h.active.contains base = true)
    (htracks : ¬ h.Tracks typeName) :
    h.allocate base size typeName time = ⟨h, none, [.report (.unknownDataType typeName time)]⟩ :=
  (if_neg hfree).trans (if_neg htracks)

theorem heap_allocate_of_accepted (hfree : ¬ h.active.contains base = true)
    (htracks : h.Tracks typeName) :
    (h.allocate base size typeName time).heap =
      { h with
        active := h.active.insert base
          ⟨h.ids.next, (h.types.insert typeName).numberOf typeName, base, size, time⟩
        ids := h.ids.advance
        types := h.types.insert typeName } := by
  unfold allocate
  rw [if_neg hfree, if_pos htracks]

theorem free_of_none (hnone : h.active.get? base = none) :
    h.free base time = ⟨h, none, [.report (.unknownFree base time)]⟩ := by
  unfold free
  rw [hnone]

theorem free_of_active {a : Allocation} (ha : h.active.get? base = some a) :
    h.free base time =
      ⟨{ h with active := h.active.erase base }, some a,
        [.record (.allocation (a.row (some time)))]⟩ := by
  unfold free
  rw [ha]

theorem allocationRow?_allocate (h : Heap) (base size : UInt64) (typeName : String)
    (time : UInt64) {r : Record} (hr : .record r ∈ (h.allocate base size typeName time).outputs) :
    r.allocationRow? = none := by
  unfold allocate at hr
  split at hr
  · simp at hr
  · split at hr
    · simp only at hr
      split at hr
      · cases hr
      · cases List.mem_singleton.mp hr
        rfl
    · simp at hr

end Cases

/-! ### Following the lifetimes -/

/-- The heap and the allocation rows are as far as some events: the heap holds the lifetimes
    that have no end, and the rows are those of the lifetimes that have one. -/
structure Follows (tracked : Option (List String)) (es : List Event) (h : Heap)
    (rs : List AllocationRow) : Prop where
  tracks : h.tracked = tracked
  contains_iff : ∀ base, h.active.contains base = true ↔ OpenAt tracked es base
  based : ∀ base a, h.active.get? base = some a → a.base = base
  names : h.types.names = typeNames tracked es
  ids : h.ids.next = (lifetimes tracked es).length + 1
  ended : ∀ r ∈ rs, r.stop ≠ none
  rows : (rs ++ h.active.values.map (·.row none)).Perm (allocationRows tracked es)

namespace Follows

variable {tracked : Option (List String)} {es : List Event} {h : Heap} {rs : List AllocationRow}
  {e : Event}

theorem initial (tracked : Option (List String)) :
    (Heap.initial tracked).Follows tracked [] [] where
  tracks := rfl
  contains_iff base := iff_of_false Bool.false_ne_true (not_openAt_nil base)
  based base a hget := by cases hget
  names := rfl
  ids := rfl
  ended r hr := by cases hr
  rows := List.Perm.refl _

/-- An event that begins no allocation and frees none that is open. -/
theorem keep (hf : h.Follows tracked es rs) (hnew : ¬ e.Accepts tracked es)
    (hfree : ∀ base, OpenAt tracked es base → ¬ e.FreesAt base) :
    h.Follows tracked (es ++ [e]) rs where
  tracks := hf.tracks
  contains_iff base := by
    rw [hf.contains_iff, openAt_concat]
    have hkeep := hfree base
    tauto
  based := hf.based
  names := by rw [hf.names, typeNames_of_not_accepts hnew]
  ids := by rw [hf.ids, lifetimes_of_not_accepts hnew, List.length_map]
  ended := hf.ended
  rows := by
    have hsame : allocationRows tracked (es ++ [e]) = allocationRows tracked es := by
      unfold allocationRows
      rw [lifetimes_of_not_accepts hnew, typeNames_of_not_accepts hnew, map_meet_eq_self hfree]
    rw [hsame]
    exact hf.rows

theorem accepts_iff (hf : h.Follows tracked es rs) {size : UInt64}
    (halloc : e.operation = .alloc size) :
    e.Accepts tracked es ↔ ¬ h.active.contains e.address = true ∧ h.Tracks e.typeName := by
  have htracks : h.Tracks e.typeName ↔ IsTracked tracked e.typeName := by
    rw [← hf.tracks]
    rfl
  rw [Event.accepts_iff, hf.contains_iff, htracks, Event.allocated?, halloc]
  simp [and_comm]

theorem accept (hf : h.Follows tracked es rs) {size : UInt64} (halloc : e.operation = .alloc size)
    (haccepts : e.Accepts tracked es) :
    (h.allocate e.address size e.typeName e.time).heap.Follows tracked (es ++ [e]) rs := by
  obtain ⟨hfree, htracks⟩ := (hf.accepts_iff halloc).mp haccepts
  have hnone : h.active.get? e.address = none := by simpa [AscMap.contains] using hfree
  have hnames : (h.types.insert e.typeName).names = typeNames tracked (es ++ [e]) := by
    rw [typeNames_of_accepts haccepts, ← hf.names]
    split
    · next hold => rw [Interner.insert_of_mem hold]
    · next hnew => rw [Interner.names_insert_of_not_mem hnew]
  rw [heap_allocate_of_accepted hfree htracks]
  exact {
    tracks := hf.tracks
    contains_iff := by
      intro base
      have hbefore := hf.contains_iff base
      rw [openAt_concat, ← hbefore, AscMap.contains, AscMap.get?_insert]
      have hnot : ¬ e.FreesAt base := by
        rintro ⟨hop, _⟩
        cases halloc.symm.trans hop
      split
      · next heq => simp [haccepts, heq]
      · next hne => simp [hne, hnot, AscMap.contains]
    based := by
      intro base a hget
      rw [AscMap.get?_insert] at hget
      split at hget
      · next heq =>
        cases hget
        exact heq
      · exact hf.based base a hget
    names := hnames
    ids := by
      rw [lifetimes_of_accepts haccepts halloc, List.length_append]
      exact congrArg (· + 1) hf.ids
    ended := hf.ended
    rows := by
      have hvalues := (AscMap.values_insert_perm hnone ⟨h.ids.next,
        (h.types.insert e.typeName).numberOf e.typeName, e.address, size, e.time⟩).map
        (Allocation.row · none)
      rw [allocationRows_of_accepts haccepts halloc, ← hnames, ← hf.ids]
      refine (hvalues.append_left rs).trans ?_
      rw [List.map_cons]
      refine List.perm_middle.trans (List.Perm.trans ?_ (List.perm_append_singleton _ _).symm)
      exact hf.rows.cons _ }

/-- A free ends the lifetime that the heap holds at its base, and the others go on. -/
theorem free (hf : h.Follows tracked es rs) (hfree : e.operation = .free) {a : Allocation}
    (ha : h.active.get? e.address = some a) :
    Follows tracked (es ++ [e]) { h with active := h.active.erase e.address }
      (rs ++ [a.row (some e.time)]) := by
  have hnew : ¬ e.Accepts tracked es := by
    intro haccepts
    obtain ⟨size, halloc⟩ := haccepts.exists_alloc
    cases halloc.symm.trans hfree
  exact {
    tracks := hf.tracks
    contains_iff := by
      intro base
      have hbefore := hf.contains_iff base
      have hfrees : e.FreesAt base ↔ e.address = base := by simp [Event.FreesAt, hfree]
      rw [openAt_concat, ← hbefore, hfrees, AscMap.contains, AscMap.get?_erase]
      split
      · next heq => simp [hnew, heq]
      · next hne => simp [hnew, hne, AscMap.contains]
    based := by
      intro base b hget
      rw [AscMap.get?_erase] at hget
      split at hget
      · cases hget
      · exact hf.based base b hget
    names := by rw [hf.names, typeNames_of_not_accepts hnew]
    ids := by rw [hf.ids, lifetimes_of_not_accepts hnew, List.length_map]
    ended := by
      refine List.forall_mem_append.mpr ⟨hf.ended, List.forall_mem_singleton.mpr ?_⟩
      exact Option.some_ne_none _
    rows := by
      have hperm := (AscMap.values_perm_cons_erase ha).map (Allocation.row · none)
      have hmet := ((hperm.append_left rs).symm.trans hf.rows).map (AllocationRow.meet · e)
      have hended : rs.map (AllocationRow.meet · e) = rs :=
        (List.map_congr_left fun r hr => AllocationRow.meet_of_stop (hf.ended r hr) e).trans
          (List.map_id rs)
      have hlast : (a.row none).meet e = a.row (some e.time) := by
        rw [a.meet_row, if_pos ⟨hfree, (hf.based e.address a ha).symm⟩]
      have hothers : ((h.active.erase e.address).values.map (Allocation.row · none)).map
          (AllocationRow.meet · e) =
            (h.active.erase e.address).values.map (Allocation.row · none) := by
        rw [List.map_map]
        refine List.map_congr_left fun b hb => ?_
        obtain ⟨base, hget⟩ := AscMap.mem_values_iff.mp hb
        rw [AscMap.get?_erase] at hget
        split at hget
        · cases hget
        · next hne =>
          rw [← hf.based base b hget] at hne
          exact (b.meet_row e).trans (by rw [if_neg fun hfrees => hne hfrees.2])
      rw [List.map_append, hended, List.map_cons, List.map_cons, hlast, hothers,
        ← allocationRows_of_not_accepts hnew] at hmet
      rw [List.append_assoc]
      exact hmet }

end Follows

end Heap

namespace Session

/-! ### Sessions follow the lifetimes -/

section Step

variable {tracked : Option (List String)} {es : List Event} {s : Session} {e : Event}

theorem turnsDown_alloc (hf : s.heap.Follows tracked es s.monitor.allocationTable)
    {size : UInt64} (halloc : e.operation = .alloc size) (hrejected : ¬ e.Accepts tracked es) :
    s.TurnsDown (s.step e).1
      (if OpenAt tracked es e.address then .duplicateAllocation e.address e.time
        else .unknownDataType e.typeName e.time) := by
  have hheap : ((s.note e).flush none).heap = s.heap := (s.sameHeap_flush e none).heap
  rw [step_of_alloc halloc, allocEvent, hheap]
  split
  · next hopen =>
    rw [Heap.allocate_of_active ((hf.contains_iff _).mpr hopen), ← hheap]
    exact s.turnsDown_of_report e _
  · next hclosed =>
    have hfree : ¬ s.heap.active.contains e.address = true :=
      fun hactive => hclosed ((hf.contains_iff _).mp hactive)
    have htracks : ¬ s.heap.Tracks e.typeName :=
      fun htracks => hrejected ((hf.accepts_iff halloc).mpr ⟨hfree, htracks⟩)
    rw [Heap.allocate_of_untracked hfree htracks, ← hheap]
    exact s.turnsDown_of_report e _

theorem turnsDown_free (hf : s.heap.Follows tracked es s.monitor.allocationTable)
    (hfree : e.operation = .free) (hclosed : ¬ OpenAt tracked es e.address) :
    s.TurnsDown (s.step e).1 (.unknownFree e.address e.time) := by
  have hheap : ((s.note e).flush none).heap = s.heap := (s.sameHeap_flush e none).heap
  have hnone : s.heap.active.get? e.address = none := by
    rw [← hf.contains_iff] at hclosed
    simpa [AscMap.contains] using hclosed
  rw [step_of_free hfree, freeEvent, hheap, Heap.free_of_none hnone, ← hheap]
  exact s.turnsDown_of_report e _

theorem TurnsDown.follows {s' : Session} {i : Inconsistency} (h : s.TurnsDown s' i)
    (hf : s.heap.Follows tracked es s.monitor.allocationTable) (hnew : ¬ e.Accepts tracked es)
    (hfree : ∀ base, OpenAt tracked es base → ¬ e.FreesAt base) :
    s'.heap.Follows tracked (es ++ [e]) s'.monitor.allocationTable := by
  rw [h.heap, h.allocations]
  exact hf.keep hnew hfree

theorem follows_alloc (hf : s.heap.Follows tracked es s.monitor.allocationTable) {size : UInt64}
    (halloc : e.operation = .alloc size) :
    (s.step e).1.heap.Follows tracked (es ++ [e]) (s.step e).1.monitor.allocationTable := by
  by_cases haccepts : e.Accepts tracked es
  · have hflush := s.sameHeap_flush e none
    have htable : (((s.note e).flush none).allocEvent e size).monitor.allocationTable =
        s.monitor.allocationTable := by
      rw [← hflush.rows.allocations,
        Monitor.allocationTable_of_append (outputs_allocEvent _ e size)]
      refine (congrArg _ (List.filterMap_eq_nil_iff.mpr fun r hr => ?_)).trans (List.append_nil _)
      exact Heap.allocationRow?_allocate _ _ _ _ _ (Output.mem_records_iff.mp hr)
    have hheap : (((s.note e).flush none).allocEvent e size).heap =
        (s.heap.allocate e.address size e.typeName e.time).heap := by
      rw [← hflush.heap]
      rfl
    rw [step_of_alloc halloc, htable, hheap]
    exact hf.accept halloc haccepts
  · refine (turnsDown_alloc hf halloc haccepts).follows hf haccepts ?_
    rintro base _ ⟨hfree, _⟩
    cases halloc.symm.trans hfree

theorem follows_free (hf : s.heap.Follows tracked es s.monitor.allocationTable)
    (hfree : e.operation = .free) :
    (s.step e).1.heap.Follows tracked (es ++ [e]) (s.step e).1.monitor.allocationTable := by
  cases ha : s.heap.active.get? e.address with
  | none =>
    have hclosed : ¬ OpenAt tracked es e.address := by
      rw [← hf.contains_iff]
      simp [AscMap.contains, ha]
    refine (turnsDown_free hf hfree hclosed).follows hf ?_ ?_
    · intro haccepts
      obtain ⟨size, halloc⟩ := haccepts.exists_alloc
      cases halloc.symm.trans hfree
    · rintro base hopen ⟨_, rfl⟩
      exact hclosed hopen
  | some a =>
    have hflush := s.sameHeap_flush e none
    have hfreed : ((s.note e).flush none).heap.free e.address e.time =
        ⟨{ s.heap with active := s.heap.active.erase e.address }, some a,
          [.record (.allocation (a.row (some e.time)))]⟩ := by
      rw [hflush.heap]
      exact Heap.free_of_active ha
    have htable : (((s.note e).flush none).freeEvent e).monitor.allocationTable =
        s.monitor.allocationTable ++ [a.row (some e.time)] := by
      obtain ⟨reports, houtputs⟩ := outputs_freeEvent ((s.note e).flush none) e
      rw [← hflush.rows.allocations, Monitor.allocationTable_of_append houtputs, hfreed,
        List.filterMap_append, Output.filterMap_record?_reports]
      rfl
    rw [step_of_free hfree, htable, heap_freeEvent, hfreed]
    exact hf.free hfree ha

/-- One more event keeps the heap and the rows as far as the events. -/
theorem follows_step (hf : s.heap.Follows tracked es s.monitor.allocationTable) (e : Event) :
    (s.step e).1.heap.Follows tracked (es ++ [e]) (s.step e).1.monitor.allocationTable := by
  by_cases halloc : ∃ size, e.operation = .alloc size
  · obtain ⟨size, halloc⟩ := halloc
    exact follows_alloc hf halloc
  by_cases hfree : e.operation = .free
  · exact follows_free hf hfree
  · have hsame : s.SameHeap (s.step e).1 :=
      (keptByLocksAt_sameHeap e.time s).event ⟨rfl, .refl s.monitor⟩
        (fun size h => absurd ⟨size, h⟩ halloc) fun h => absurd h hfree
    rw [hsame.heap, hsame.rows.allocations]
    exact hf.keep (fun haccepts => halloc haccepts.exists_alloc) fun _ _ h => hfree h.1

end Step

/-! ### Whole runs -/

theorem follows_run {config : Config} {symbols : SymbolTable} {es : List Event} {s : Session}
    (hrun : (Session.initial config symbols).run es = (s, none)) :
    s.heap.Follows config.dataTypes es s.monitor.allocationTable := by
  induction es using List.reverseRecOn generalizing s with
  | nil =>
    cases hrun
    exact .initial config.dataTypes
  | append_singleton es e ih =>
    obtain ⟨s₁, hbefore, hstep⟩ := exists_of_run_concat hrun
    have hf := follows_step (ih hbefore) e
    rwa [hstep] at hf

/-- In the end every allocation that is active gets its row. -/
theorem allocationTable_finish (s : Session) :
    s.finish.monitor.allocationTable =
      s.monitor.allocationTable ++ s.heap.active.values.map (·.row none) := by
  have hflush := (keptByLocksAt_sameHeap 0 s).flush ⟨rfl, .refl s.monitor⟩ none
  obtain ⟨m, hm⟩ : ∃ m, m = if (s.flush none).monitor.isIdle then (s.flush none).monitor
      else (s.flush none).monitor.remark (.closing (s.flush none).lastTime) := ⟨_, rfl⟩
  have hremark : s.monitor.SameHeapRows m := by
    rw [hm]
    split
    · exact hflush.rows
    · exact hflush.rows.trans (.of_append (Monitor.outputs_withOutputs _ [.remark _]) (by simp))
  have hclosed := hremark.trans (m.sameHeapRows_closeAll (s.flush none).lastTime)
  have hfinish : s.finish.monitor = (m.closeAll (s.flush none).lastTime).withOutputs
      ((s.flush none).heap.finish.outputs ++ [Output.record .flush]) := by
    rw [hm]
    rfl
  rw [hfinish, Monitor.allocationTable_of_append (Monitor.outputs_withOutputs _ _),
    hclosed.allocations, hflush.heap, Heap.finish, List.filterMap_append, List.filterMap_map,
    Record.allocations_append]
  simp [Record.allocations, Function.comp_def, Output.record?, Record.allocationRow?]

/-- The allocations table pairs what is allocated with what is freed. Its rows are those of the
    accepted allocations. Every other event that allocates, and every free of a base where nothing
    is open, is turned down with one report. -/
theorem allocations_paired_of_run {config : Config} {symbols : SymbolTable} {es : List Event}
    {s : Session} (hrun : (Session.initial config symbols).run es = (s, none)) :
    (Record.allocations s.finish.journal.records).Perm (allocationRows config.dataTypes es) ∧
    ∀ before e after, es = before ++ e :: after →
      let s₁ := ((Session.initial config symbols).run before).1
      (∀ base, s₁.heap.active.contains base = true ↔ OpenAt config.dataTypes before base) ∧
      (∀ size, e.operation = .alloc size → ¬ e.Accepts config.dataTypes before →
        s₁.TurnsDown (s₁.step e).1
          (if OpenAt config.dataTypes before e.address then .duplicateAllocation e.address e.time
            else .unknownDataType e.typeName e.time)) ∧
      (e.operation = .free → ¬ OpenAt config.dataTypes before e.address →
        s₁.TurnsDown (s₁.step e).1 (.unknownFree e.address e.time)) := by
  constructor
  · have htable : Record.allocations s.finish.journal.records =
        s.monitor.allocationTable ++ s.heap.active.values.map (·.row none) :=
      s.allocationTable_finish
    rw [htable]
    exact (follows_run hrun).rows
  · intro before e after hsplit
    rw [hsplit] at hrun
    obtain ⟨s₁, hbefore, _⟩ := exists_of_run_append hrun
    have hf := follows_run hbefore
    rw [hbefore]
    exact ⟨hf.contains_iff, fun size halloc hrejected => turnsDown_alloc hf halloc hrejected,
      fun hfree hclosed => turnsDown_free hf hfree hclosed⟩

/-- One base is allocated twice, freed and allocated again, a data type is not tracked, and frees
    come where nothing is open. The last allocation is not freed. -/
def repeatedAllocations : List Event :=
  [⟨1, 1, .alloc 64, 0x300, "inode", Site.unknown, 0⟩,
   ⟨2, 1, .alloc 32, 0x300, "dentry", Site.unknown, 0⟩,
   ⟨3, 1, .alloc 16, 0x400, "page", Site.unknown, 0⟩,
   ⟨4, 1, .free, 0x400, "", Site.unknown, 0⟩,
   ⟨5, 1, .alloc 32, 0x400, "dentry", Site.unknown, 0⟩,
   ⟨6, 1, .access .read 4, 0x304, "", Site.unknown, 0⟩,
   ⟨7, 1, .free, 0x300, "", Site.unknown, 0⟩,
   ⟨8, 1, .free, 0x300, "", Site.unknown, 0⟩,
   ⟨9, 1, .alloc 64, 0x300, "inode", Site.unknown, 0⟩,
   ⟨10, 1, .free, 0x400, "", Site.unknown, 0⟩]

/-- The choice to track two data types. -/
def twoDataTypes : Config := { Config.default with dataTypes := some ["dentry", "inode"] }

theorem allocations_paired_of_repeatedAllocations :
    ∃ s, (Session.initial twoDataTypes ∅).run repeatedAllocations = (s, none) ∧
      (Record.allocations s.finish.journal.records).Perm
        [⟨1, 1, 0x300, 64, 1, some 7⟩, ⟨2, 2, 0x400, 32, 5, some 10⟩,
          ⟨3, 1, 0x300, 64, 9, none⟩] := by
  have hstop : ((Session.initial twoDataTypes ∅).run repeatedAllocations).2 = none := by
    decide +kernel
  have hrows : allocationRows twoDataTypes.dataTypes repeatedAllocations =
      [⟨1, 1, 0x300, 64, 1, some 7⟩, ⟨2, 2, 0x400, 32, 5, some 10⟩,
        ⟨3, 1, 0x300, 64, 9, none⟩] := by decide +kernel
  exact ⟨_, Prod.ext rfl hstop, hrows ▸ (allocations_paired_of_run (Prod.ext rfl hstop)).1⟩

end Session

end LockTrace
