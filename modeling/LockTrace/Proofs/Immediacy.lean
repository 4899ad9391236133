import Mathlib.Data.List.Induction
import LockTrace.Proofs.Faithful
import LockTrace.Proofs.OwnUpdates

/-!
# Accesses that wait

Accesses wait in a buffer, and yet their rows are those that would have been written at once:
each names the transaction and the allocation of the state in which its event was followed
(`AccessRow.IsOf`). For the events between an access and the flush that writes it are accesses
and lock operations that are left aside, and these change neither the monitor nor the heap; and
the writing of other accesses changes no transaction's number.

What has been written and what waits is told by the events (`Trace.Written`, `Trace.Waits`).
-/

namespace LockTrace

open Trace

/-- The row is that of the access event `e`, if it is followed in the session `s`. -/
structure AccessRow.IsOf (row : AccessRow) (s : Session) (e : Event) : Prop where
  operation : e.operation = .access row.kind row.size
  time : row.time = e.time
  address : row.address = e.address
  site : row.site = s.stripSite e.site
  line : row.site.line = e.site.line
  function : row.site.function = e.site.function
  txn : row.txn = (s.monitor.innermost? e.ctx).map Txn.id
  allocation : row.allocation = (s.heap.containing? e.address).map Allocation.id

/-- What waits is the access event `e`, followed in the session `s`. -/
structure PendingAccess.IsOf (a : PendingAccess) (s : Session) (e : Event) : Prop where
  operation : e.operation = .access a.kind a.size
  ctx : a.ctx = e.ctx
  time : a.time = e.time
  address : a.address = e.address
  site : a.site = s.stripSite e.site

/-- Two accesses that wait look like an update of its own to the operation whose update they
    are. -/
theorem PendingAccess.IsOf.isOwnUpdate {a b : PendingAccess} {s s' : Session}
    {first second e : Event} (ha : a.IsOf s first) (hb : b.IsOf s' second)
    (h : e.Updates first second) : Session.IsOwnUpdate e.address e.ctx a b := by
  obtain ⟨size, hread, hwrite⟩ := h.operations
  have hfirst := ha.operation.symm.trans hread
  have hsecond := hb.operation.symm.trans hwrite
  injection hfirst with hkind hsize
  injection hsecond with hkind' hsize'
  exact ⟨ha.ctx.trans h.ctx.1, hb.ctx.trans h.ctx.2, ha.time.trans (h.time.trans hb.time.symm),
    hkind, hkind', ha.address.trans h.address.1, hb.address.trans h.address.2,
    hsize.trans hsize'.symm⟩

theorem PendingAccess.IsOf.updates {a b : PendingAccess} {s s' : Session}
    {first second e : Event} (ha : a.IsOf s first) (hb : b.IsOf s' second)
    (hop : e.operation.lockOp?.isSome = true) (hdefers : ¬ e.Defers)
    (h : Session.IsOwnUpdate e.address e.ctx a b) : e.Updates first second := by
  obtain ⟨hctx, hctx', htime, hread, hwrite, haddress, haddress', hsize⟩ := h
  refine ⟨hop, fun hignored => hdefers (Or.inr ⟨hop, hignored⟩),
    ⟨ha.ctx.symm.trans hctx, hb.ctx.symm.trans hctx'⟩,
    ⟨ha.address.symm.trans haddress, hb.address.symm.trans haddress'⟩,
    ha.time.symm.trans (htime.trans hb.time), a.size, ?_, ?_⟩
  · rw [ha.operation, hread]
  · rw [hb.operation, hwrite, hsize]

/-! ### Operations write no accesses -/

namespace Monitor

variable (m : Monitor)

theorem accessTable_withOutputs {os : List Output} (h : ∀ o ∈ os, o.Quiet) :
    (m.withOutputs os).accessTable = m.accessTable :=
  accessTable_of_quiet (m.outputs_withOutputs os) h

theorem accessTable_report (i : Inconsistency) : (m.report i).accessTable = m.accessTable := by
  have hquiet : ∀ o ∈ [Output.report i], o.Quiet := List.forall_mem_singleton.mpr trivial
  exact m.accessTable_withOutputs hquiet

theorem accessTable_step (key : Nat) (t : Transition) :
    (m.step key t).1.accessTable = m.accessTable := by
  apply step_induction (P := fun m' => m'.accessTable = m.accessTable)
  · exact fun m' i _ h => (m'.accessTable_report i).trans h
  · exact fun _ _ _ h => h
  · exact fun _ h => h
  · exact fun m' side owner purge h _ =>
      (m'.accessTable_closeTxn key side owner t.time purge).trans h
  · rfl

theorem accessTable_findOrCreate {m m' : Monitor} {address : UInt64} {label : String}
    {flags : UInt32} {place : UInt64 → Placement} {key : Nat}
    (h : m.findOrCreate address label flags place = .ok (key, m')) :
    m'.accessTable = m.accessTable := by
  rcases findOrCreate_ok h with rfl | ⟨kind, rfl⟩
  · rfl
  · exact m.accessTable_withOutputs fun _ ho => quiet_of_mem_lockRows ho

theorem accessTable_freeRange (base size time : UInt64) :
    (m.freeRange base size time).2.accessTable = m.accessTable :=
  m.accessTable_withOutputs fun _ ho =>
    quiet_of_mem_reports (m.locks.freeRange base size time).reports ho

theorem accessTable_closeAll (time : UInt64) : (m.closeAll time).accessTable = m.accessTable := by
  apply closeAll_induction (P := fun m' => m'.accessTable = m.accessTable)
  · intro m' count ctx h
    have hquiet : ∀ o ∈ [Output.remark (.stillActive count ctx)], o.Quiet :=
      List.forall_mem_singleton.mpr trivial
    exact (m'.accessTable_withOutputs hquiet).trans h
  · exact fun m' ctx top below h _ =>
      (m'.accessTable_closeTxn top.lock top.side ctx time false).trans h
  · rfl

end Monitor

namespace Session

/-! ### Writing what waits -/

/-- The row of an access that waits. -/
def rowOf (s : Session) (a : PendingAccess) (id : Nat) : AccessRow :=
  ⟨id, (s.heap.containing? a.address).map Allocation.id,
    (s.monitor.innermost? a.ctx).map Txn.id, a.time, a.kind, a.size, a.address, a.site⟩

theorem line_stripSite (s : Session) (site : Site) : (s.stripSite site).line = site.line := by
  unfold stripSite
  split <;> rfl

theorem function_stripSite (s : Session) (site : Site) :
    (s.stripSite site).function = site.function := by
  unfold stripSite
  split <;> rfl

/-- The row of an access is that of its event if nothing has changed while it waited. -/
theorem isOf_rowOf {a : PendingAccess} {s s' : Session} {e : Event}
    (h : a.IsOf s e) (hmonitor : s.monitor = s'.monitor) (hheap : s.heap = s'.heap) (id : Nat) :
    (s'.rowOf a id).IsOf s e where
  operation := h.operation
  time := h.time
  address := h.address
  site := h.site
  line := (congrArg Site.line h.site).trans (s.line_stripSite e.site)
  function := (congrArg Site.function h.site).trans (s.function_stripSite e.site)
  txn := by
    rw [← h.ctx, hmonitor]
    rfl
  allocation := by
    rw [← h.address, hheap]
    rfl

theorem innermostId_countAccess (m : Monitor) (ctx ctx' : Int64) :
    ((m.countAccess ctx).innermost? ctx').map Txn.id = (m.innermost? ctx').map Txn.id := by
  unfold Monitor.innermost?
  rw [Monitor.stack_countAccess]
  split
  · next h =>
    cases h
    cases m.stack ctx <;> rfl
  · rfl

/-- Writing an access changes no row that is written after it, but for its number. -/
theorem rowOf_writeAccess (s : Session) (a b : PendingAccess) (id : Nat) :
    (s.writeAccess a).rowOf b id = s.rowOf b id := by
  have htxn := innermostId_countAccess s.monitor a.ctx b.ctx
  unfold rowOf
  exact congrArg (fun txn => (⟨id, _, txn, _, _, _, _, _⟩ : AccessRow)) htxn

/-- The rows of accesses, numbered one after the other. -/
def rowsOf (s : Session) (as : List PendingAccess) (id : Nat) : List AccessRow :=
  (as.zipIdx id).map fun (a, id) => s.rowOf a id

theorem rowsOf_writeAccess (s : Session) (a : PendingAccess) (as : List PendingAccess) (id : Nat) :
    (s.writeAccess a).rowsOf as id = s.rowsOf as id := by
  refine List.map_congr_left ?_
  rintro ⟨b, id⟩ _
  exact s.rowOf_writeAccess a b id

theorem accessTable_foldl_writeAccess (as : List PendingAccess) (s : Session) :
    (as.foldl writeAccess s).monitor.accessTable =
      s.monitor.accessTable ++ s.rowsOf as s.accessIds.next := by
  induction as generalizing s with
  | nil => exact (List.append_nil _).symm
  | cons a as ih =>
    have hwrite : (s.writeAccess a).monitor.accessTable =
        s.monitor.accessTable ++ [s.rowOf a s.accessIds.next] :=
      Monitor.accessTable_of_append (Monitor.outputs_write _ _)
    rw [List.foldl_cons, ih, hwrite, rowsOf_writeAccess, List.append_assoc]
    rfl

/-- What else a session is, apart from its monitor and the numbers of its rows. -/
structure Beside (s s' : Session) : Prop where
  sourcePrefix : s'.sourcePrefix = s.sourcePrefix
  heap : s'.heap = s.heap
  pending : s'.pending = s.pending
  counts : s'.counts = s.counts
  discarded : s'.discarded = s.discarded

theorem foldl_writeAccess_beside (as : List PendingAccess) (s : Session) :
    s.Beside (as.foldl writeAccess s) ∧
      (as.foldl writeAccess s).accessIds.next = s.accessIds.next + as.length := by
  induction as generalizing s with
  | nil => exact ⟨⟨rfl, rfl, rfl, rfl, rfl⟩, rfl⟩
  | cons a as ih =>
    obtain ⟨hbeside, hnext⟩ := ih (s.writeAccess a)
    refine ⟨⟨hbeside.sourcePrefix, hbeside.heap, hbeside.pending, hbeside.counts,
      hbeside.discarded⟩, hnext.trans ?_⟩
    rw [List.length_cons]
    exact Nat.add_right_comm _ 1 _

theorem pending_flush (s : Session) (lock : Option (UInt64 × Int64)) :
    (s.flush lock).pending = [] :=
  (foldl_writeAccess_beside _ { s with pending := [], discarded := _ }).1.pending

/-! ### Events that end the waiting -/

/-- Nothing changes for accesses and their rows, and no event is counted. -/
structure SameRows (s s' : Session) : Prop where
  sourcePrefix : s'.sourcePrefix = s.sourcePrefix
  pending : s'.pending = s.pending
  accessIds : s'.accessIds = s.accessIds
  counts : s'.counts = s.counts
  discarded : s'.discarded = s.discarded
  table : s'.monitor.accessTable = s.monitor.accessTable

theorem sameRows_lockEvent (s : Session) (e : Event) (op : LockOp) (irqSync : IrqSync)
    (flags : UInt32) : s.SameRows (s.lockEvent e op irqSync flags).1 := by
  unfold lockEvent
  split
  · exact ⟨rfl, rfl, rfl, rfl, rfl, s.monitor.accessTable_report _⟩
  · cases hfind : s.monitor.findOrCreate e.address e.typeName flags s.place with
    | error cause => exact ⟨rfl, rfl, rfl, rfl, rfl, rfl⟩
    | ok found =>
      obtain ⟨key, m⟩ := found
      exact ⟨rfl, rfl, rfl, rfl, rfl,
        (m.accessTable_step key _).trans (Monitor.accessTable_findOrCreate hfind)⟩

theorem sameRows_allocEvent (s : Session) (e : Event) (size : UInt64) :
    s.SameRows (s.allocEvent e size) :=
  ⟨rfl, rfl, rfl, rfl, rfl, s.monitor.accessTable_withOutputs fun o ho =>
    (plain_allocate s.heap e.address size e.typeName e.time o ho).quiet⟩

theorem sameRows_freeEvent (s : Session) (e : Event) : s.SameRows (s.freeEvent e) := by
  have hfree : (s.monitor.withOutputs (s.heap.free e.address e.time).outputs).accessTable =
      s.monitor.accessTable := s.monitor.accessTable_withOutputs fun o ho =>
    (plain_free s.heap e.address e.time o ho).quiet
  unfold freeEvent
  simp only
  split
  · exact ⟨rfl, rfl, rfl, rfl, rfl, hfree⟩
  · exact ⟨rfl, rfl, rfl, rfl, rfl, (Monitor.accessTable_freeRange _ _ _ _).trans hfree⟩

/-- The lock and the context of an event that is a lock operation. -/
def lockOf (e : Event) : Option (UInt64 × Int64) :=
  e.operation.lockOp?.map fun _ => (e.address, e.ctx)

theorem lockOf_eq_some {e : Event} {op : LockOp} (h : e.operation.lockOp? = some op) :
    lockOf e = some (e.address, e.ctx) := by
  unfold lockOf
  rw [h]
  rfl

theorem lockOf_eq_none {e : Event} (h : e.operation.lockOp? = none) : lockOf e = none := by
  unfold lockOf
  rw [h]
  rfl

theorem not_defers_of_lockOp? {e : Event} (hop : e.operation.lockOp? = none)
    (haccess : ∀ kind size, e.operation ≠ .access kind size) : ¬ e.Defers := by
  rintro (⟨kind, size, heq⟩ | haside)
  · exact haccess kind size heq
  · have hsome := haside.1
    rw [hop] at hsome
    cases hsome

theorem flushedLockEvent_waiting_cases (s : Session) {e : Event} {op : LockOp}
    (hop : e.operation.lockOp? = some op) (irqSync : IrqSync) (flags : UInt32) :
    (e.LeftAside ∧ ∃ ignored, s.flushedLockEvent e op irqSync flags =
      ({ s with counts := { s.counts with ignored := ignored } }, none)) ∨
    (¬ e.Defers ∧ (s.flush (lockOf e)).SameRows (s.flushedLockEvent e op irqSync flags).1) := by
  rw [lockOf_eq_some hop]
  unfold flushedLockEvent
  split
  · next hignored => exact Or.inl ⟨⟨Option.isSome_of_eq_some hop, hignored⟩, _, rfl⟩
  · next hkept =>
    refine Or.inr ⟨?_, sameRows_lockEvent _ e op irqSync flags⟩
    rintro (haccess | haside)
    · rw [haccess.lockOp?_eq_none] at hop
      cases hop
    · exact hkept haside.2

/-- An event puts an access into the buffer, is left aside, or has the buffer emptied before
    anything else. -/
theorem step_waiting_cases (s : Session) (e : Event) :
    (∃ kind size, e.operation = .access kind size ∧
      s.step e = ((s.note e).buffer e kind size, none)) ∨
    (e.LeftAside ∧ ∃ ignored, s.step e =
      ({ s.note e with counts := { (s.note e).counts with ignored := ignored } }, none)) ∨
    (¬ e.Defers ∧ ((s.note e).flush (lockOf e)).SameRows (s.step e).1) := by
  unfold step
  cases hop : e.operation with
  | access kind size => exact Or.inl ⟨kind, size, rfl, rfl⟩
  | acquire side irqSync flags =>
    have hlock : e.operation.lockOp? = some (.acquire side) := by rw [hop]; rfl
    exact Or.inr ((s.note e).flushedLockEvent_waiting_cases hlock irqSync flags)
  | release side flags =>
    have hlock : e.operation.lockOp? = some (.release side) := by rw [hop]; rfl
    exact Or.inr ((s.note e).flushedLockEvent_waiting_cases hlock .none flags)
  | alloc size =>
    have hlock : e.operation.lockOp? = none := by rw [hop]; rfl
    refine Or.inr (Or.inr ⟨not_defers_of_lockOp? hlock (by simp [hop]), ?_⟩)
    rw [lockOf_eq_none hlock]
    exact sameRows_allocEvent _ e size
  | free =>
    have hlock : e.operation.lockOp? = none := by rw [hop]; rfl
    refine Or.inr (Or.inr ⟨not_defers_of_lockOp? hlock (by simp [hop]), ?_⟩)
    rw [lockOf_eq_none hlock]
    exact sameRows_freeEvent _ e

/-! ### What has been written and what waits -/

/-- After some events the accesses `written` have their rows, and the accesses `waiting` are in
    the buffer. Neither the monitor nor the heap has changed since the latter. -/
structure Delivers (start : Session) (es : List Event) (s : Session)
    (written waiting : List Nat) : Prop where
  sourcePrefix : s.sourcePrefix = start.sourcePrefix
  allWritten : Enumerates written (Written es)
  allWaiting : Enumerates waiting (Waits es)
  rows : List.Forall₂ (fun row n => ∃ e, es[n]? = some e ∧ row.IsOf (start.upTo es n) e)
    s.monitor.accessTable written
  ids : s.monitor.accessTable.map AccessRow.id = List.range' 1 written.length
  next : s.accessIds.next = written.length + 1
  pending : List.Forall₂ (fun a n => ∃ e, es[n]? = some e ∧ a.IsOf (start.upTo es n) e)
    s.pending waiting.reverse
  unchanged : ∀ n ∈ waiting, (start.upTo es n).monitor = s.monitor ∧
    (start.upTo es n).heap = s.heap ∧ (start.upTo es n).sourcePrefix = s.sourcePrefix

namespace Delivers

variable {start s s' : Session} {es : List Event} {e : Event} {written waiting : List Nat}

theorem initial (config : Config) (symbols : SymbolTable) :
    (Session.initial config symbols).Delivers [] (Session.initial config symbols) [] [] where
  sourcePrefix := rfl
  allWritten := Enumerates.nil fun n ⟨⟨_, hget, _⟩, _⟩ => by cases hget
  allWaiting := Enumerates.nil fun n ⟨⟨_, hget, _⟩, _⟩ => by cases hget
  rows := List.Forall₂.nil
  ids := rfl
  next := rfl
  pending := List.Forall₂.nil
  unchanged := fun _ h => by cases h

/-- What holds of an event goes on to hold when there is one more. -/
theorem forall₂_concat {α : Type} {R : α → Session → Event → Prop} {as : List α} {ns : List Nat}
    (h : List.Forall₂ (fun a n => ∃ e, es[n]? = some e ∧ R a (start.upTo es n) e) as ns)
    (e : Event) :
    List.Forall₂ (fun a n => ∃ e', (es ++ [e])[n]? = some e' ∧ R a (start.upTo (es ++ [e]) n) e')
      as ns := by
  apply h.imp
  rintro a n ⟨e', hget, hR⟩
  have hlt := (List.getElem?_eq_some_iff.mp hget).1
  rw [Trace.getElem?_concat hlt, start.upTo_concat (Nat.le_of_lt hlt)]
  exact ⟨e', hget, hR⟩

/-- The buffer grows with an access. -/
theorem buffer (h : start.Delivers es s written waiting) (hrun : start.run es = (s, none))
    {kind : AccessKind} {size : UInt64} (he : e.operation = .access kind size) :
    start.Delivers (es ++ [e]) ((s.note e).buffer e kind size) written
      (waiting ++ [es.length]) := by
  have haccess : e.IsAccess := ⟨kind, size, he⟩
  have hnow : start.upTo (es ++ [e]) es.length = s := by
    rw [start.upTo_concat (Nat.le_refl _), upTo_length hrun]
  have hlt : ∀ n, Waits es n → n < es.length := fun n hn => hn.1.lt_length
  refine ⟨h.sourcePrefix, ?_, ?_, forall₂_concat h.rows e, h.ids, h.next, ?_, ?_⟩
  · exact h.allWritten.congr fun n => (written_concat_of_defers (Or.inl haccess)).symm
  · refine (h.allWaiting.append (Enumerates.singleton es.length) ?_).congr ?_
    · rintro n _ hn rfl
      exact hlt n hn
    · intro n
      rw [waits_concat (Or.inl haccess), and_iff_left haccess]
  · rw [List.reverse_append]
    refine List.Forall₂.cons ⟨e, List.getElem?_concat_length, ?_⟩ (forall₂_concat h.pending e)
    rw [hnow]
    exact ⟨he, rfl, rfl, rfl, rfl⟩
  · intro n hn
    rcases List.mem_append.mp hn with hn | hn
    · rw [start.upTo_concat (Nat.le_of_lt (hlt n ((h.allWaiting.mem_iff n).mp hn)))]
      exact h.unchanged n hn
    · rw [List.mem_singleton.mp hn, hnow]
      exact ⟨rfl, rfl, rfl⟩

/-- Nothing happens when an operation is left aside. -/
theorem leftAside (h : start.Delivers es s written waiting) (he : e.LeftAside)
    (counts : EventCounts) :
    start.Delivers (es ++ [e]) { s.note e with counts := counts } written waiting := by
  have hnone : ¬ e.IsAccess := fun haccess => haccess.not_leftAside he
  refine ⟨h.sourcePrefix, ?_, ?_, forall₂_concat h.rows e, h.ids, h.next,
    forall₂_concat h.pending e, ?_⟩
  · exact h.allWritten.congr fun n => (written_concat_of_defers (Or.inr he)).symm
  · refine h.allWaiting.congr fun n => ?_
    rw [waits_concat (Or.inr he)]
    exact (or_iff_left fun hn => hnone hn.2).symm
  · intro n hn
    rw [start.upTo_concat (Nat.le_of_lt ((h.allWaiting.mem_iff n).mp hn).1.lt_length)]
    exact h.unchanged n hn

/-! ### Emptying the buffer -/

/-- The buffer shows whether the last two accesses that wait are the event's own update. -/
theorem ownUpdate_iff_pending (h : start.Delivers es s written waiting) {p q : Nat} :
    OwnUpdate (es ++ [e]) p q es.length ↔
      ¬ e.Defers ∧ ∃ front address ctx first second rest, waiting = front ++ [p, q] ∧
        lockOf e = some (address, ctx) ∧ s.pending = second :: first :: rest ∧
        IsOwnUpdate address ctx first second := by
  have hpending := h.pending
  rw [Trace.ownUpdate_iff]
  constructor
  · rintro ⟨⟨hp, hq, hpq, hlast⟩, first, second, hgetp, hgetq, hupdates⟩
    obtain ⟨front, rfl⟩ := h.allWaiting.exists_append_pair hp hq hpq hlast
    rw [List.reverse_append, List.reverse_cons, List.reverse_singleton, List.singleton_append,
      List.cons_append, List.singleton_append] at hpending
    obtain ⟨b, bs, ⟨_, hb, hsecond⟩, hpending, hcut⟩ := List.forall₂_cons_right_iff.mp hpending
    obtain ⟨a, as, ⟨_, ha, hfirst⟩, _, rfl⟩ := List.forall₂_cons_right_iff.mp hpending
    cases hgetq.symm.trans hb
    cases hgetp.symm.trans ha
    obtain ⟨op, hop⟩ := Option.isSome_iff_exists.mp hupdates.lock
    exact ⟨hupdates.not_defers, front, e.address, e.ctx, a, b, as, rfl, lockOf_eq_some hop, hcut,
      hfirst.isOwnUpdate hsecond hupdates⟩
  · rintro ⟨hdefers, front, address, ctx, a, b, rest, rfl, hlock, hcut, hown⟩
    rw [hcut, List.reverse_append, List.reverse_cons, List.reverse_singleton, List.singleton_append,
      List.cons_append, List.singleton_append] at hpending
    obtain ⟨⟨second, hgetq, hsecond⟩, hpending⟩ := List.forall₂_cons.mp hpending
    obtain ⟨⟨first, hgetp, hfirst⟩, _⟩ := List.forall₂_cons.mp hpending
    obtain ⟨op, hop, htarget⟩ := Option.map_eq_some_iff.mp hlock
    cases htarget
    exact ⟨h.allWaiting.last_pair, first, second, hgetp, hgetq,
      hfirst.updates hsecond (Option.isSome_of_eq_some hop) hdefers hown⟩

/-- Without an update of the event's own, all that wait are kept. -/
theorem dropOwnUpdate_eq_pending (h : start.Delivers es s written waiting) (he : ¬ e.Defers)
    (hnone : ¬ ∃ p q, OwnUpdate (es ++ [e]) p q es.length) :
    (dropOwnUpdate (lockOf e) s.pending).1 = s.pending := by
  have hpending := h.pending
  unfold dropOwnUpdate
  split
  · next address ctx second first rest hlock hcut =>
    split
    · next hcond =>
      rw [hcut] at hpending
      obtain ⟨q, ns, _, hpending, hq⟩ := List.forall₂_cons_left_iff.mp hpending
      obtain ⟨p, ns, _, _, rfl⟩ := List.forall₂_cons_left_iff.mp hpending
      have hwaiting : waiting = ns.reverse ++ [p, q] := by
        rw [← List.reverse_reverse waiting, hq]
        simp
      exact absurd ⟨p, q, h.ownUpdate_iff_pending.mpr
        ⟨he, _, _, _, _, _, _, hwaiting, hlock, hcut, hcond⟩⟩ hnone
    · rfl
  · rfl

/-- What is left of the buffer are the accesses that wait, without the event's own update. -/
theorem exists_kept (h : start.Delivers es s written waiting) (he : ¬ e.Defers) :
    ∃ kept : List Nat,
      Enumerates kept (fun n => Waits es n ∧
        ¬ ∃ p q, OwnUpdate (es ++ [e]) p q es.length ∧ (n = p ∨ n = q)) ∧
      List.Forall₂ (fun a n => ∃ e, es[n]? = some e ∧ a.IsOf (start.upTo es n) e)
        (dropOwnUpdate (lockOf e) s.pending).1 kept.reverse := by
  by_cases hown : ∃ p q, OwnUpdate (es ++ [e]) p q es.length
  · obtain ⟨p, q, hupdate⟩ := hown
    obtain ⟨_, front, address, ctx, first, second, rest, rfl, hlock, hcut, hcond⟩ :=
      h.ownUpdate_iff_pending.mp hupdate
    refine ⟨front, h.allWaiting.of_append_pair.congr ?_, ?_⟩
    · intro n
      refine and_congr_right fun _ => not_congr ⟨fun hn => ⟨p, q, hupdate, hn⟩, ?_⟩
      rintro ⟨p', q', hupdate', hn⟩
      -- the last two that wait are the same for both
      obtain ⟨_, front', _, _, _, _, _, heq, _⟩ := h.ownUpdate_iff_pending.mp hupdate'
      have hpair := List.append_inj_right' heq rfl
      cases hpair
      exact hn
    · have hpending := h.pending
      rw [hcut, List.reverse_append, List.reverse_cons, List.reverse_singleton,
        List.singleton_append, List.cons_append, List.singleton_append] at hpending
      rw [hcut, hlock]
      unfold dropOwnUpdate
      simp only [hcond, if_true]
      exact (List.forall₂_cons.mp (List.forall₂_cons.mp hpending).2).2
  · refine ⟨waiting, h.allWaiting.congr fun n => (and_iff_left ?_).symm, ?_⟩
    · rintro ⟨p, q, hupdate, _⟩
      exact hown ⟨p, q, hupdate⟩
    · rw [h.dropOwnUpdate_eq_pending he hown]
      exact h.pending

/-- The rows of accesses that waited. -/
theorem rowsOf_isOf {as : List PendingAccess} {ns : List Nat}
    (h : List.Forall₂ (fun a n => ∃ e, es[n]? = some e ∧ a.IsOf (start.upTo es n) e) as ns)
    (hunchanged : ∀ n ∈ ns, (start.upTo es n).monitor = s.monitor ∧
      (start.upTo es n).heap = s.heap) (id : Nat) :
    List.Forall₂ (fun row n => ∃ e, es[n]? = some e ∧ row.IsOf (start.upTo es n) e)
        (s.rowsOf as id) ns ∧
      (s.rowsOf as id).map AccessRow.id = List.range' id ns.length := by
  induction h generalizing id with
  | nil => exact ⟨List.Forall₂.nil, rfl⟩
  | @cons a n as ns ha _ ih =>
    obtain ⟨e, hget, ha⟩ := ha
    obtain ⟨hmonitor, hheap⟩ := hunchanged n List.mem_cons_self
    obtain ⟨hrows, hids⟩ := ih (fun n hn => hunchanged n (List.mem_cons_of_mem _ hn)) (id + 1)
    constructor
    · refine List.Forall₂.cons ⟨e, hget, ?_⟩ hrows
      exact isOf_rowOf ha hmonitor hheap id
    · exact congrArg (id :: ·) hids

/-- The accesses that wait are written, and nothing waits any more. -/
theorem append_rows (h : start.Delivers es s written waiting) {kept : List Nat}
    (hkept : ∀ n ∈ kept, n ∈ waiting) {as : List PendingAccess}
    (hpending : List.Forall₂ (fun a n => ∃ e, es[n]? = some e ∧ a.IsOf (start.upTo es n) e) as
      kept.reverse) (s' : Session) (hs : s.monitor = s'.monitor) (hheap : s.heap = s'.heap)
    (hnext : s.accessIds = s'.accessIds) :
    List.Forall₂ (fun row n => ∃ e, es[n]? = some e ∧ row.IsOf (start.upTo es n) e)
        (as.reverse.foldl writeAccess s').monitor.accessTable (written ++ kept) ∧
      (as.reverse.foldl writeAccess s').monitor.accessTable.map AccessRow.id =
        List.range' 1 (written ++ kept).length ∧
      (as.reverse.foldl writeAccess s').accessIds.next = (written ++ kept).length + 1 := by
  have hinOrder := List.rel_reverse hpending
  rw [List.reverse_reverse] at hinOrder
  have hunchanged : ∀ n ∈ kept, (start.upTo es n).monitor = s'.monitor ∧
      (start.upTo es n).heap = s'.heap := by
    intro n hn
    obtain ⟨hmonitor, hheap', _⟩ := h.unchanged n (hkept n hn)
    exact ⟨hmonitor.trans hs, hheap'.trans hheap⟩
  obtain ⟨hrows, hids⟩ := rowsOf_isOf hinOrder hunchanged s'.accessIds.next
  obtain ⟨_, hcount⟩ := foldl_writeAccess_beside as.reverse s'
  have hlength := hinOrder.length_eq
  rw [accessTable_foldl_writeAccess, ← hs]
  refine ⟨List.rel_append h.rows hrows, ?_, ?_⟩
  · rw [List.map_append, h.ids, hids, ← hnext, h.next, List.length_append, Nat.add_comm _ 1,
      List.range'_append_1]
  · rw [hcount, ← hnext, h.next, hlength, List.length_append]
    omega

/-- An event that does not let accesses wait. -/
theorem flush (h : start.Delivers es s written waiting) (he : ¬ e.Defers)
    (hsame : ((s.note e).flush (lockOf e)).SameRows s') :
    ∃ now, start.Delivers (es ++ [e]) s' now [] := by
  obtain ⟨kept, hkept, hpending⟩ := h.exists_kept he
  have hsub : ∀ n ∈ kept, n ∈ waiting := fun n hn =>
    (h.allWaiting.mem_iff n).mpr ((hkept.mem_iff n).mp hn).1
  obtain ⟨hrows, hids, hnext⟩ := h.append_rows hsub hpending
    { s.note e with pending := [], discarded := _ } rfl rfl rfl
  obtain ⟨hbeside, _⟩ := foldl_writeAccess_beside (dropOwnUpdate (lockOf e) s.pending).1.reverse
    { s.note e with pending := [], discarded := _ }
  refine ⟨written ++ kept, ?_, ?_, ?_, ?_, ?_, ?_, ?_, ?_⟩
  · exact hsame.sourcePrefix.trans (hbeside.sourcePrefix.trans h.sourcePrefix)
  · refine (h.allWritten.append hkept ?_).congr fun n => (written_concat he).symm
    exact fun n m hn hm => lt_of_waits_of_written hm.1 hn
  · exact Enumerates.nil fun n => not_waits_concat he
  · rw [hsame.table]
    exact forall₂_concat hrows e
  · rw [hsame.table]
    exact hids
  · rw [hsame.accessIds]
    exact hnext
  · rw [hsame.pending, List.reverse_nil, pending_flush]
    exact List.Forall₂.nil
  · intro n hn
    cases hn

theorem concat (h : start.Delivers es s written waiting) (hrun : start.run es = (s, none))
    (e : Event) : ∃ now later, start.Delivers (es ++ [e]) (s.step e).1 now later := by
  rcases s.step_waiting_cases e with ⟨kind, size, he, heq⟩ | ⟨he, ignored, heq⟩ | ⟨he, hsame⟩
  · rw [heq]
    exact ⟨_, _, h.buffer hrun he⟩
  · rw [heq]
    exact ⟨_, _, h.leftAside he _⟩
  · obtain ⟨now, hnow⟩ := h.flush he hsame
    exact ⟨now, [], hnow⟩

end Delivers

theorem exists_delivers (config : Config) (symbols : SymbolTable) {es : List Event} {s : Session}
    (hrun : (Session.initial config symbols).run es = (s, none)) :
    ∃ written waiting, (Session.initial config symbols).Delivers es s written waiting := by
  induction es using List.reverseRecOn generalizing s with
  | nil =>
    cases hrun
    exact ⟨[], [], Delivers.initial config symbols⟩
  | append_singleton es e ih =>
    obtain ⟨s₁, hrun₁, hstep⟩ := exists_of_run_concat hrun
    obtain ⟨written, waiting, h⟩ := ih hrun₁
    obtain ⟨now, later, hnow⟩ := h.concat hrun₁ e
    rw [hstep] at hnow
    exact ⟨now, later, hnow⟩

theorem accessTable_finish (s : Session) :
    s.finish.monitor.accessTable = (s.flush none).monitor.accessTable := by
  obtain ⟨os, os', hos, hos', heq⟩ := s.finish_eq
  rw [heq, Monitor.accessTable_withOutputs _ fun o ho => (hos' o ho).quiet,
    Monitor.accessTable_closeAll, Monitor.accessTable_withOutputs _ fun o ho => (hos o ho).quiet]

/-- After a trace that was followed to its end, every access has its row or was dropped as a
    part of a lock operation's update of its lock. The rows come in the order of the events, and
    each tells what its event did and where it belonged when it was followed. -/
theorem accessTable_of_run {config : Config} {symbols : SymbolTable} {es : List Event} {s : Session}
    (hrun : (Session.initial config symbols).run es = (s, none)) :
    ∃ ns : List Nat, ns.Pairwise (· < ·) ∧ (∀ n, n ∈ ns ↔ AccessAt es n ∧ ¬ Dropped es n) ∧
      s.finish.monitor.accessTable.map AccessRow.id = List.range' 1 ns.length ∧
      List.Forall₂ (fun row n => ∃ e, es[n]? = some e ∧
          row.IsOf ((Session.initial config symbols).upTo es n) e)
        s.finish.monitor.accessTable ns := by
  obtain ⟨written, waiting, h⟩ := exists_delivers config symbols hrun
  obtain ⟨hrows, hids, _⟩ := h.append_rows (fun _ hn => hn) h.pending
    { s with pending := [], discarded := _ } rfl rfl rfl
  have hall : Enumerates (written ++ waiting) (fun n => AccessAt es n ∧ ¬ Dropped es n) :=
    (h.allWritten.append h.allWaiting fun _ _ hn hm => lt_of_waits_of_written hm hn).congr
      fun _ => written_or_waits_iff
  refine ⟨written ++ waiting, hall.ascending, hall.mem_iff, ?_, ?_⟩
  · rw [accessTable_finish]
    exact hids
  · rw [accessTable_finish]
    exact hrows

/-- Accesses of two contexts in and outside of an allocation, of which some wait while operations
    are left aside and two are dropped. -/
def mixedAccesses : List Event :=
  [⟨1, 1, .alloc 64, 0x300, "inode", Site.unknown, 0⟩,
    ⟨2, 1, .acquire .writer .none 0, 0x100, "spinlock_t", Site.unknown, 0⟩,
    ⟨3, 1, .access .read 4, 0x308, "", Site.unknown, 0⟩,
    ⟨4, 2, .access .write 8, 0x400, "", Site.unknown, 0⟩,
    ⟨4, 1, .acquire .writer .none 0, 0x500, "seqlock_t", Site.unknown, 0⟩,
    ⟨5, 1, .access .read 4, 0x100, "", Site.unknown, 0⟩,
    ⟨5, 1, .acquire .writer .none 0, 0x600, "seqcount_t", Site.unknown, 0⟩,
    ⟨5, 1, .access .write 4, 0x100, "", Site.unknown, 0⟩,
    ⟨6, 1, .release .writer 0, 0x100, "spinlock_t", Site.unknown, 0⟩,
    ⟨7, 1, .access .read 4, 0x308, "", Site.unknown, 0⟩,
    ⟨8, 2, .release .writer 0, 0x700, "spinlock_t", Site.unknown, 0⟩,
    ⟨9, 1, .free, 0x300, "", Site.unknown, 0⟩,
    ⟨10, 1, .access .write 4, 0x308, "", Site.unknown, 0⟩]

theorem accessTable_of_mixedAccesses :
    ∃ s, (Session.initial .default ∅).run mixedAccesses = (s, none) ∧
      s.finish.monitor.accessTable.map (fun row => (row.txn, row.allocation)) =
        [(some 1, some 1), (none, none), (none, some 1), (none, none)] ∧
      ∃ ns : List Nat, ns.Pairwise (· < ·) ∧
        (∀ n, n ∈ ns ↔ AccessAt mixedAccesses n ∧ ¬ Dropped mixedAccesses n) ∧
        s.finish.monitor.accessTable.map AccessRow.id = List.range' 1 ns.length ∧
        List.Forall₂ (fun row n => ∃ e, mixedAccesses[n]? = some e ∧
            row.IsOf ((Session.initial .default ∅).upTo mixedAccesses n) e)
          s.finish.monitor.accessTable ns := by
  have hstop : ((Session.initial .default ∅).run mixedAccesses).2 = none := by decide +kernel
  exact ⟨_, Prod.ext rfl hstop, by decide +kernel, accessTable_of_run (Prod.ext rfl hstop)⟩

end Session

end LockTrace
