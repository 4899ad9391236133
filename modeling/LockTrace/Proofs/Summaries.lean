import LockTrace.Log
import LockTrace.Proofs.Immediacy
import LockTrace.Proofs.Openings
import LockTrace.Proofs.References
import LockTrace.Proofs.Truncation
import LockTrace.Table

/-!
# The summary agrees with the tables

Every number of a summary is counted where something happens, and the rows and the log lines are
written elsewhere. In the end they agree: with the events of the trace, with the rows of every
table and with the warnings in the log (`Summary.Agrees`). The numbers of accesses hold at every
moment if those that wait are counted too (`Session.Reckoned`), those of transactions and of
reports as they stand (`Monitor.Reckoned`). Locks, allocations and data types are numbered without
a gap, so that the last number is how many there are.
-/

namespace LockTrace

/-! ### Rows and warnings among outputs -/

/-- As many rows of a table are among some outputs as `f` finds, if it finds the rows of this
    table. -/
theorem Table.length_rows {α : Type} {t : Table} (f : Output → Option α)
    (hrecord : ∀ r, (f (.record r)).isSome = (columns? r).any fun row => decide (row.1 = t))
    (hreport : ∀ i, f (.report i) = none) (hremark : ∀ r, f (.remark r) = none)
    (os : List Output) :
    (t.rows (os.filterMap Output.record?)).length = (os.filterMap f).length := by
  unfold rows
  rw [List.filterMap_filterMap, List.filterMap_filterMap, List.length_filterMap_eq_countP,
    List.length_filterMap_eq_countP]
  apply List.countP_congr
  intro o _
  cases o with
  | record r =>
    rw [hrecord, Output.record?, Option.bind_some]
    cases columns? r with
    | none => rfl
    | some row => by_cases ht : row.1 = t <;> simp [ht]
  | report i => simp [hreport, Output.record?]
  | remark r => simp [hremark, Output.record?]

/-- Every report is a warning, and no remark is one. -/
theorem warningsOf_logLines (os : List Output) :
    warningsOf (os.filterMap Output.logLine?) =
      (os.filterMap Output.report?).map Inconsistency.message := by
  induction os with
  | nil => rfl
  | cons o os ih =>
    cases o with
    | record r => exact ih
    | report i => exact congrArg (i.message :: ·) ih
    | remark r => cases r <;> exact ih

/-! ### Events by their kinds -/

namespace EventCounts

/-- Every event is counted with its kind. -/
def Sums (c : EventCounts) : Prop :=
  c.total = c.allocs + c.frees + c.acquires + c.releases + c.reads + c.writes

variable (c : EventCounts) (op : Operation)

theorem total_record : (c.record op).total = c.total + 1 := by
  cases op with
  | access kind size => cases kind <;> rfl
  | _ => rfl

theorem Sums.record {c : EventCounts} (h : c.Sums) (op : Operation) : (c.record op).Sums := by
  unfold Sums at h ⊢
  cases op with
  | access kind size => cases kind <;> simp only [EventCounts.record] <;> omega
  | _ => simp only [EventCounts.record]; omega

theorem accesses_record (kind : AccessKind) (size : UInt64) :
    (c.record (.access kind size)).reads + (c.record (.access kind size)).writes =
      c.reads + c.writes + 1 := by
  cases kind <;> simp only [record] <;> omega

theorem accesses_record_of_ne (h : ∀ kind size, op ≠ .access kind size) :
    (c.record op).reads + (c.record op).writes = c.reads + c.writes := by
  cases op with
  | access kind size => exact absurd rfl (h kind size)
  | _ => rfl

end EventCounts

/-! ### Accesses -/

namespace Session

theorem length_dropOwnUpdate (lock : Option (UInt64 × Int64)) (pending : List PendingAccess) :
    (dropOwnUpdate lock pending).1.length + (dropOwnUpdate lock pending).2 = pending.length := by
  unfold dropOwnUpdate
  split
  · split <;> rfl
  · rfl

/-- After `n` events every one of them is counted, and every access among them has its row, was
    dropped, or waits. -/
structure Reckoned (n : Nat) (s : Session) : Prop where
  total : s.counts.total = n
  kinds : s.counts.Sums
  next : s.accessIds.next = s.monitor.accessTable.length + 1
  accesses : s.monitor.accessTable.length + s.discarded + s.pending.length =
    s.counts.reads + s.counts.writes

namespace Reckoned

variable {n : Nat} {s s' : Session}

theorem initial (config : Config) (symbols : SymbolTable) :
    (Session.initial config symbols).Reckoned 0 := ⟨rfl, rfl, rfl, rfl⟩

theorem of_same (h : s.Reckoned n) (hsame : s.SameRows s') : s'.Reckoned n where
  total := by rw [hsame.counts, h.total]
  kinds := by
    rw [hsame.counts]
    exact h.kinds
  next := by rw [hsame.accessIds, hsame.table, h.next]
  accesses := by rw [hsame.table, hsame.discarded, hsame.pending, hsame.counts, h.accesses]

/-- The accesses that wait get their rows, but for those that are dropped. -/
theorem flush (h : s.Reckoned n) (lock : Option (UInt64 × Int64)) :
    (s.flush lock).Reckoned n := by
  obtain ⟨hbeside, hnext⟩ := foldl_writeAccess_beside (dropOwnUpdate lock s.pending).1.reverse
    { s with pending := [], discarded := s.discarded + (dropOwnUpdate lock s.pending).2 }
  have hrows : (s.flush lock).monitor.accessTable.length =
      s.monitor.accessTable.length + (dropOwnUpdate lock s.pending).1.length := by
    unfold Session.flush
    simp only [accessTable_foldl_writeAccess, List.length_append, rowsOf, List.length_map,
      List.length_zipIdx, List.length_reverse]
  have hdiscarded : (s.flush lock).discarded =
      s.discarded + (dropOwnUpdate lock s.pending).2 := hbeside.discarded
  have hcounts : (s.flush lock).counts = s.counts := hbeside.counts
  have hids : (s.flush lock).accessIds.next =
      s.accessIds.next + (dropOwnUpdate lock s.pending).1.reverse.length := hnext
  refine ⟨?_, ?_, ?_, ?_⟩
  · rw [hcounts, h.total]
  · rw [hcounts]
    exact h.kinds
  · rw [hids, hrows, h.next, List.length_reverse, Nat.add_right_comm]
  · have hsplit := length_dropOwnUpdate lock s.pending
    have hbefore := h.accesses
    rw [hrows, hdiscarded, pending_flush, hcounts, List.length_nil]
    omega

theorem note (h : s.Reckoned n) {e : Event} (he : ∀ kind size, e.operation ≠ .access kind size) :
    (s.note e).Reckoned (n + 1) where
  total := (s.counts.total_record e.operation).trans (congrArg (· + 1) h.total)
  kinds := h.kinds.record e.operation
  next := h.next
  accesses := h.accesses.trans (s.counts.accesses_record_of_ne e.operation he).symm

theorem step (h : s.Reckoned n) (e : Event) : (s.step e).1.Reckoned (n + 1) := by
  rcases s.step_waiting_cases e with ⟨kind, size, he, heq⟩ | ⟨he, ignored, heq⟩ | ⟨he, hsame⟩
  · have hnote : s.note e = { s with
        counts := s.counts.record (.access kind size), lastTime := max s.lastTime e.time } := by
      rw [← he]
      rfl
    rw [heq, hnote]
    refine ⟨?_, h.kinds.record _, h.next, ?_⟩
    · exact (s.counts.total_record _).trans (congrArg (· + 1) h.total)
    · exact (congrArg (· + 1) h.accesses).trans (s.counts.accesses_record kind size).symm
  · have hnone : ∀ kind size, e.operation ≠ .access kind size := fun kind size hop =>
      Event.IsAccess.not_leftAside ⟨kind, size, hop⟩ he
    have hnote := h.note hnone
    rw [heq]
    exact ⟨hnote.total, hnote.kinds, hnote.next, hnote.accesses⟩
  · have hnone : ∀ kind size, e.operation ≠ .access kind size := fun kind size hop =>
      he (Or.inl ⟨kind, size, hop⟩)
    exact ((h.note hnone).flush _).of_same hsame

theorem run (h : s.Reckoned n) {es : List Event} (hrun : s.run es = (s', none)) :
    s'.Reckoned (n + es.length) := by
  induction es generalizing s n with
  | nil =>
    cases hrun
    exact h
  | cons e es ih =>
    have hfirst := h.step e
    cases hstep : s.step e with
    | mk s₁ stop =>
      rw [hstep] at hfirst
      cases stop with
      | none =>
        rw [run_cons hstep] at hrun
        have hrest := ih hfirst hrun
        rwa [Nat.add_assoc, Nat.add_comm 1] at hrest
      | some cause =>
        rw [run_cons_of_stop hstep] at hrun
        cases hrun

/-- At the end nothing waits. -/
theorem finish (h : s.Reckoned n) : s.finish.Reckoned n :=
  (h.flush none).of_same ⟨rfl, rfl, rfl, rfl, rfl, s.accessTable_finish⟩

end Reckoned

end Session

/-! ### Transactions and reports -/

namespace Monitor

/-- As many transactions and held sub-locks are counted as have their rows, and as many
    inconsistencies as were reported. -/
structure Reckoned (m : Monitor) : Prop where
  emitted : m.stats.emitted = (m.outputs.filterMap Output.txnRowId?).length
  held : m.stats.heldRecords = m.heldTable.length
  reports : m.journal.CountsReports

namespace Reckoned

variable {m m' : Monitor}

theorem initial (skipEmpty : Bool) : (Monitor.initial skipEmpty).Reckoned := ⟨rfl, rfl, rfl⟩

theorem withOutputs (h : m.Reckoned) {os : List Output}
    (hos : ∀ o ∈ os, o.txnRowId? = none ∧ o.heldRow? = none) : (m.withOutputs os).Reckoned := by
  have hnone : os.filterMap Output.txnRowId? = [] ∧ os.filterMap Output.heldRow? = [] :=
    ⟨List.filterMap_eq_nil_iff.mpr fun o ho => (hos o ho).1,
      List.filterMap_eq_nil_iff.mpr fun o ho => (hos o ho).2⟩
  refine ⟨?_, ?_, h.reports.addAll os⟩
  · rw [outputs_withOutputs, List.filterMap_append, hnone.1, List.append_nil]
    exact h.emitted
  · unfold heldTable
    rw [outputs_withOutputs, List.filterMap_append, hnone.2, List.append_nil]
    exact h.held

theorem stable : Stable Reckoned where
  outputs h hquiet := by
    apply h.withOutputs
    intro o ho
    have hquiet' := hquiet o ho
    cases o with
    | record r => cases r <;> first | exact hquiet'.elim | exact ⟨rfl, rfl⟩
    | report i => exact ⟨rfl, rfl⟩
    | remark r => exact ⟨rfl, rfl⟩
  locks _ h := ⟨h.emitted, h.held, h.reports⟩
  openTxn _ _ _ _ h := ⟨h.emitted, h.held, h.reports⟩
  closeTxn {m} key side ctx time purge h := by
    have houtputs := m.outputs_closeTxn key side ctx time purge
    have hemitted := h.emitted
    have hheld := h.held
    unfold heldTable at hheld
    refine ⟨?_, ?_, ?_⟩
    · rw [houtputs, List.filterMap_append, List.length_append, ← hemitted, stats_closeTxn]
      rfl
    · unfold heldTable
      rw [houtputs, List.filterMap_append, List.length_append, ← hheld, stats_closeTxn]
      rfl
    · rw [journal_closeTxn]
      exact h.reports.addAll _

theorem moves {purging : Bool} (h : m.Reckoned) (hmoves : Moves purging m m') : m'.Reckoned := by
  apply stable.moves _ hmoves h
  intro m ctx row h _
  have hcounted : (m.countAccess ctx).Reckoned := ⟨h.emitted, h.held, h.reports⟩
  have hsilent : ∀ o ∈ [Output.record (.access row)], o.txnRowId? = none ∧ o.heldRow? = none :=
    List.forall_mem_singleton.mpr ⟨rfl, rfl⟩
  exact hcounted.withOutputs hsilent

end Reckoned

end Monitor

/-! ### Summaries -/

namespace Summary

/-- The number that a summary has for the rows of a table. -/
def rowCount (n : Summary) : Table → Nat
  | .dataTypes => n.dataTypes
  | .allocations => n.allocations
  | .accesses => n.accesses
  | .locks => n.subLocks
  | .locksHeld => n.txns.heldRecords
  | .txns => n.txns.emitted

/-- The numbers are those of the events that a session `start` has followed and of the outputs
    that came forth. -/
structure Agrees (n : Summary) (start : Session) (es : List Event) (os : List Output) : Prop where
  total : n.events.total = es.length
  kinds : n.events.total = n.events.allocs + n.events.frees + n.events.acquires +
    n.events.releases + n.events.reads + n.events.writes
  rows : ∀ t : Table, n.rowCount t = (t.rows (os.filterMap Output.record?)).length
  accesses : n.accesses + n.discardedAccesses = n.events.reads + n.events.writes
  opened : n.txns.opened =
    (start.followed es).countP fun followed => followed.1.opens followed.2
  inconsistencies : n.inconsistencies.total = (warningsOf (os.filterMap Output.logLine?)).length

end Summary

namespace Session

section Finish

variable {config : Config} {symbols : SymbolTable} {es : List Event} {s : Session}

theorem reckoned_of_run (hrun : (Session.initial config symbols).run es = (s, none)) :
    s.finish.monitor.Reckoned := by
  have hmoves := (Session.initial config symbols).moves_run es
  rw [hrun] at hmoves
  exact ((Monitor.Reckoned.initial config.skipEmpty).moves hmoves).moves s.moves_finish

theorem issued_of_run (hrun : (Session.initial config symbols).run es = (s, none)) :
    s.finish.accessIds.issued = s.finish.monitor.accessTable.length := by
  have hnext := ((Reckoned.initial config symbols).run hrun).finish.next
  unfold Counter.issued
  omega

theorem linked_of_run (hrun : (Session.initial config symbols).run es = (s, none)) :
    s.finish.monitor.Linked := by
  have hlinked := Monitor.kept_linked.run (s := Session.initial config symbols) (.initial _) es
  rw [hrun] at hlinked
  exact Monitor.kept_linked.finish hlinked (fun time h => h.closeAll time)
    fun h hplain => h.withOutputs (fun _ hrow => hplain _ hrow) (fun _ hrow => hplain _ hrow)

theorem backs_of_run (hrun : (Session.initial config symbols).run es = (s, none)) :
    s.finish.heap.Backs s.finish.journal.records := by
  have hbacks : ((Session.initial config symbols).run es).1.heap.Backs
      ((Session.initial config symbols).run es).1.journal.records :=
    run_induction (P := fun s => s.heap.Backs s.journal.records)
      (fun e _ hb => (keptAt_backs e.time).event hb) (.initial config.dataTypes)
  rw [hrun] at hbacks
  exact backs_finish hbacks

/-- The summary has the number of rows of every table. -/
theorem rowCount_of_run (hrun : (Session.initial config symbols).run es = (s, none)) (t : Table) :
    s.finish.summary.rowCount t = (t.rows s.finish.journal.records).length := by
  have hreckoned := reckoned_of_run hrun
  have hbacks := backs_of_run hrun
  unfold journal Journal.records
  cases t with
  | dataTypes =>
    have hlength := congrArg List.length hbacks.dataTypes
    have hsize := congrArg List.length s.finish.heap.types.ids_rows
    rw [List.length_map, List.length_range'] at hsize
    rw [Table.length_rows (·.record?.bind Record.dataTypeRow?) (fun r => by cases r <;> rfl)
      (fun _ => rfl) (fun _ => rfl), ← List.filterMap_filterMap]
    exact hsize.symm.trans hlength.symm
  | allocations =>
    have hlength := hbacks.ids.length_eq
    have hempty : s.finish.heap.active.values = [] := rfl
    rw [hempty, List.map_nil, List.append_nil, List.length_map, List.length_range'] at hlength
    rw [Table.length_rows (·.record?.bind Record.allocationRow?) (fun r => by cases r <;> rfl)
      (fun _ => rfl) (fun _ => rfl), ← List.filterMap_filterMap]
    exact hlength.symm
  | accesses =>
    rw [Table.length_rows Output.accessRow? (fun r => by cases r <;> rfl) (fun _ => rfl)
      (fun _ => rfl)]
    exact issued_of_run hrun
  | locks =>
    have hlength := (linked_of_run hrun).lockIds.length_eq
    rw [List.length_map, List.length_range'] at hlength
    rw [Table.length_rows Output.lockRow? (fun r => by cases r <;> rfl) (fun _ => rfl)
      (fun _ => rfl)]
    exact hlength.symm
  | locksHeld =>
    rw [Table.length_rows Output.heldRow? (fun r => by cases r <;> rfl) (fun _ => rfl)
      (fun _ => rfl)]
    exact hreckoned.held
  | txns =>
    rw [Table.length_rows Output.txnRowId? (fun r => by cases r <;> rfl) (fun _ => rfl)
      (fun _ => rfl)]
    exact hreckoned.emitted

theorem opened_of_run (hrun : (Session.initial config symbols).run es = (s, none)) :
    s.finish.monitor.stats.opened = ((Session.initial config symbols).followed es).countP
      fun followed => followed.1.opens followed.2 := by
  rw [opened_finish, opened_run (inStep_initial config symbols) .empty hrun]
  exact Nat.zero_add _

/-- The summary agrees with everything that came forth. -/
theorem agrees_of_run (hrun : (Session.initial config symbols).run es = (s, none)) :
    s.finish.summary.Agrees (.initial config symbols) es s.finish.journal.outputs.toList := by
  have hcounts := ((Reckoned.initial config symbols).run hrun).finish
  refine ⟨?_, hcounts.kinds, rowCount_of_run hrun, ?_, opened_of_run hrun, ?_⟩
  · rw [← Nat.zero_add es.length]
    exact hcounts.total
  · have hbalance := hcounts.accesses
    have hpending : s.finish.pending = [] := s.pending_flush none
    rw [← issued_of_run hrun, hpending] at hbalance
    exact hbalance
  · rw [warningsOf_logLines, List.length_map]
    exact (reckoned_of_run hrun).reports

end Finish

end Session

namespace Session

variable {config : Config} {symbols : SymbolTable} {sink sink' : Sink} {es : List Event}
  {s : Session}

/-- A run into a sink that comes to a result has followed all events, and everything that it
    brought forth got through. -/
theorem exists_of_runInto
    (hrun : ((initial config symbols).runInto sink es).result = .ok (sink', s)) :
    ∃ last, (initial config symbols).run es = (last, none) ∧ s = last.finish ∧
      ((initial config symbols).runInto sink es).through = s.journal.outputs.toList := by
  rw [runInto_eq] at hrun ⊢
  obtain ⟨hthrough, houtcome⟩ := Sink.of_settle_ok hrun
  rw [hthrough]
  unfold complete at houtcome ⊢
  cases hlast : (initial config symbols).run es with
  | mk last stop =>
    rw [hlast] at houtcome
    cases stop with
    | some cause => cases houtcome
    | none =>
      cases houtcome
      exact ⟨last, rfl, rfl, rfl⟩

/-- Whenever a run into a sink comes to a result, its summary agrees with the events, and with
    the rows and the warnings that got through. -/
theorem summary_agrees_of_runInto
    (hrun : ((initial config symbols).runInto sink es).result = .ok (sink', s)) :
    s.summary.Agrees (.initial config symbols) es
      ((initial config symbols).runInto sink es).through := by
  obtain ⟨last, hlast, rfl, hthrough⟩ := exists_of_runInto hrun
  rw [hthrough]
  exact agrees_of_run hlast

/-- A trace with an allocation where one is active, an acquisition of a side that the lock does not
    have, one of a lock that is left aside, accesses that are a lock's own update, and a lock that
    is held when its memory is freed. -/
def damagedTrace : List Event :=
  [⟨1, 1, .alloc 64, 0x300, "inode", Site.unknown, 0⟩,
   ⟨2, 1, .alloc 64, 0x300, "dentry", Site.unknown, 0⟩,
   ⟨3, 1, .acquire .writer .none 0, 0x310, "spinlock_t", Site.unknown, 0⟩,
   ⟨4, 1, .access .read 4, 0x308, "", Site.unknown, 0⟩,
   ⟨5, 1, .acquire .reader .none 0, 0x310, "spinlock_t", Site.unknown, 0⟩,
   ⟨6, 1, .access .read 4, 0x500, "", Site.unknown, 0⟩,
   ⟨6, 1, .access .write 4, 0x500, "", Site.unknown, 0⟩,
   ⟨6, 1, .acquire .writer .none 0, 0x500, "mutex", Site.unknown, 0⟩,
   ⟨7, 1, .access .write 8, 0x308, "", Site.unknown, 0⟩,
   ⟨8, 1, .acquire .writer .none 0, 0x600, "seqlock_t", Site.unknown, 0⟩,
   ⟨9, 1, .free, 0x300, "", Site.unknown, 0⟩,
   ⟨10, 1, .release .writer 0, 0x500, "mutex", Site.unknown, 0⟩,
   ⟨11, 1, .free, 0x300, "", Site.unknown, 0⟩,
   ⟨12, 1, .access .write 8, 0x308, "", Site.unknown, 0⟩]

theorem summary_agrees_of_damagedTrace :
    ∃ s, ((initial .default ∅).runInto ⟨some 11⟩ damagedTrace).result = .ok (⟨some 0⟩, s) ∧
      s.summary.events = ⟨14, 2, 2, 4, 1, 2, 3, 1⟩ ∧ s.summary.txns = ⟨2, 2, 0, 0, 1⟩ ∧
      s.summary.inconsistencies.total = 6 ∧
      s.summary.Agrees (.initial .default ∅) damagedTrace
        ((initial .default ∅).runInto ⟨some 11⟩ damagedTrace).through := by
  have hresult : ((initial .default ∅).runInto ⟨some 11⟩ damagedTrace).result.toOption.map
      (fun after => (after.1, after.2.summary.events, after.2.summary.txns,
        after.2.summary.inconsistencies.total)) =
      some (⟨some 0⟩, ⟨14, 2, 2, 4, 1, 2, 3, 1⟩, ⟨2, 2, 0, 0, 1⟩, 6) := by decide +kernel
  cases hrun : ((initial .default ∅).runInto ⟨some 11⟩ damagedTrace).result with
  | error cause =>
    rw [hrun] at hresult
    cases hresult
  | ok after =>
    obtain ⟨sink, s⟩ := after
    rw [hrun] at hresult
    have hparts := Option.some.inj hresult
    simp only [Prod.mk.injEq] at hparts
    obtain ⟨rfl, hevents, htxns, htotal⟩ := hparts
    exact ⟨s, rfl, hevents, htxns, htotal, summary_agrees_of_runInto hrun⟩

end Session

end LockTrace
