import LockTrace.Proofs.Following
import LockTrace.Proofs.TxnRows
import Mathlib.Data.List.Induction

/-!
# Intervals of transactions nest

If the times of a trace never decrease, every transaction is an interval, and two intervals on
the stack of one context never cross: one lies in the other, or one follows the other
(`TxnRow.NestsOrFollows`). This holds however the transactions come to their ends, by releases in
any order, by other contexts that take locks away, or at the end of the trace.

What carries the proof is a relation between the rows so far and the stacks (`Monitor.Timed`). A
transaction that is open in the context of a row started after the row's interval was over or
before it began, so that whenever it ends, the two do not cross. Rows do not tell their
context. It is known by the numbers, which belong to one context each (`home`).
-/

namespace LockTrace

/-! ### Intervals -/

namespace TxnRow

/-- The interval of `r` lies in that of `r'`. -/
def Within (r r' : TxnRow) : Prop := r'.start ≤ r.start ∧ r.stop ≤ r'.stop

/-- One of two intervals lies in the other, or one is over when the other starts. -/
def NestsOrFollows (r r' : TxnRow) : Prop :=
  r.Within r' ∨ r'.Within r ∨ r.stop ≤ r'.start ∨ r'.stop ≤ r.start

variable {r r' : TxnRow}

theorem NestsOrFollows.symm (h : r.NestsOrFollows r') : r'.NestsOrFollows r := by
  rcases h with h | h | h | h
  · exact Or.inr (Or.inl h)
  · exact Or.inl h
  · exact Or.inr (Or.inr (Or.inr h))
  · exact Or.inr (Or.inr (Or.inl h))

/-- Intervals that end together nest. -/
theorem NestsOrFollows.of_stop_eq (h : r.stop = r'.stop) : r.NestsOrFollows r' := by
  rcases UInt64.le_total r'.start r.start with hle | hle
  · exact Or.inl ⟨hle, h ▸ UInt64.le_refl _⟩
  · exact Or.inr (Or.inl ⟨hle, h ▸ UInt64.le_refl _⟩)

/-- A moment crosses no interval. -/
theorem NestsOrFollows.of_moment (h : r.start = r.stop) : r.NestsOrFollows r' := by
  rcases UInt64.le_total r.stop r'.start with hle | hle
  · exact Or.inr (Or.inr (Or.inl hle))
  · rcases UInt64.le_total r.stop r'.stop with hle' | hle'
    · exact Or.inl ⟨h ▸ hle, hle'⟩
    · exact Or.inr (Or.inr (Or.inr (h ▸ hle')))

end TxnRow

/-! ### Unwinding a stack in order -/

namespace TxnStack

/-- From the innermost transaction outwards, each started no later than the one before. -/
def Ordered (s : TxnStack) : Prop := (s.map Txn.start).Pairwise (· ≥ ·)

variable {key : Nat} {side : Side} {time : UInt64} {purge : Bool} {next : Nat} {s : TxnStack}

theorem Ordered.unwound (h : s.Ordered) (htime : ∀ t ∈ s, t.start ≤ time) :
    (s.unwound key side time purge next).Ordered := by
  induction s generalizing next with
  | nil => exact List.Pairwise.nil
  | cons top below ih =>
    obtain ⟨_, hbelow⟩ := List.pairwise_cons.mp h
    have htime' : ∀ t ∈ below, t.start ≤ time := fun t ht => htime t (List.mem_cons_of_mem _ ht)
    rw [TxnStack.unwound]
    split
    · split
      · exact hbelow.sublist ((List.filter_sublist).map Txn.start)
      · exact hbelow
    · refine List.pairwise_cons.mpr ⟨?_, ih hbelow htime'⟩
      intro start hstart
      obtain ⟨t, ht, rfl⟩ := List.mem_map.mp hstart
      rcases mem_unwound ht with ht | ⟨_, _, hnew, _⟩
      · exact htime' t ht
      · exact hnew ▸ UInt64.le_refl _

/-- What is left of a stack is opened again, or was there before what is closed. -/
theorem Ordered.start_of_mem_unwound (h : s.Ordered) {t u : Txn} (ht : t ∈ s.closed key side)
    (hu : u ∈ s.unwound key side time purge next) : u.start = time ∨ u.start ≤ t.start := by
  induction s generalizing next with
  | nil => cases ht
  | cons top below ih =>
    obtain ⟨hstarts, hbelow⟩ := List.pairwise_cons.mp h
    have htop : ∀ u ∈ below, u.start ≤ top.start := fun u hu =>
      hstarts u.start (List.mem_map_of_mem hu)
    rw [TxnStack.unwound] at hu
    rw [TxnStack.closed] at ht
    split at hu
    · next hanchor =>
      rw [if_pos hanchor, List.mem_singleton] at ht
      rw [ht]
      split at hu
      · exact Or.inr (htop u (List.mem_filter.mp hu).1)
      · exact Or.inr (htop u hu)
    · next hanchor =>
      rw [if_neg hanchor] at ht
      rcases List.mem_cons.mp hu with rfl | hmem
      · exact Or.inl rfl
      · rcases List.mem_cons.mp ht with rfl | ht
        · -- what was opened again below the transaction is as new as what was above
          rcases mem_unwound hmem with hu | ⟨_, _, hnew, _⟩
          · exact Or.inr (htop u hu)
          · exact Or.inl hnew
        · exact ih hbelow ht hmem

end TxnStack

/-! ### Rows and stacks in the course of time -/

namespace Monitor

/-- At the time `now` the rows and the stacks hold intervals that do not cross, where `home` tells
    the context of a number. A transaction whose number was not `seen` before the present event
    has lasted no time. -/
structure Timed (home : Nat → Int64) (seen : Nat → Prop) (now : UInt64) (m : Monitor) : Prop where
  open_lt : ∀ c, ∀ t ∈ m.stack c, t.id < m.txnIds.next
  open_home : ∀ c, ∀ t ∈ m.stack c, home t.id = c
  open_start : ∀ c, ∀ t ∈ m.stack c, t.start ≤ now ∧ (seen t.id ∨ t.start = now)
  ordered : ∀ c, (m.stack c).Ordered
  row_lt : ∀ r ∈ m.txnTable, r.id < m.txnIds.next
  row_span : ∀ r ∈ m.txnTable, r.start ≤ r.stop ∧ r.stop ≤ now ∧ (seen r.id ∨ r.start = r.stop)
  stops : (m.txnTable.map TxnRow.stop).Pairwise (· ≤ ·)
  nested : ∀ r ∈ m.txnTable, ∀ r' ∈ m.txnTable, home r.id = home r'.id → r.NestsOrFollows r'
  apart : ∀ r ∈ m.txnTable, ∀ t ∈ m.stack (home r.id), r.stop ≤ t.start ∨ t.start ≤ r.start

/-- The contexts of the numbers, if those from `next` on belong to `ctx`. -/
def extendHome (home : Nat → Int64) (next : Nat) (ctx : Int64) (i : Nat) : Int64 :=
  if i < next then home i else ctx

namespace Timed

variable {home : Nat → Int64} {seen : Nat → Prop} {now : UInt64} {m m' : Monitor}

theorem initial (skipEmpty : Bool) : (Monitor.initial skipEmpty).Timed home seen now where
  open_lt _ _ ht := by cases ht
  open_home _ _ ht := by cases ht
  open_start _ _ ht := by cases ht
  ordered _ := List.Pairwise.nil
  row_lt _ hr := by cases hr
  row_span _ hr := by cases hr
  stops := List.Pairwise.nil
  nested _ hr := by cases hr
  apart _ hr := by cases hr

/-- Neither the rows nor the stacks change, but for counts of accesses. -/
theorem of_shape (h : m.Timed home seen now) (hnext : m'.txnIds = m.txnIds)
    (hstack : ∀ c, (m'.stack c).map Txn.shape = (m.stack c).map Txn.shape)
    (htable : m'.txnTable = m.txnTable) : m'.Timed home seen now := by
  have hopen : ∀ c, ∀ t ∈ m'.stack c, ∃ u ∈ m.stack c, u.id = t.id ∧ u.start = t.start := by
    intro c t ht
    have hshape : t.shape ∈ (m.stack c).map Txn.shape := hstack c ▸ List.mem_map_of_mem ht
    obtain ⟨u, hu, hsame⟩ := List.mem_map.mp hshape
    injection hsame with hid hstart
    exact ⟨u, hu, hid, hstart⟩
  refine ⟨?_, ?_, ?_, ?_, ?_, ?_, ?_, ?_, ?_⟩
  · intro c t ht
    obtain ⟨u, hu, hid, _⟩ := hopen c t ht
    rw [hnext, ← hid]
    exact h.open_lt c u hu
  · intro c t ht
    obtain ⟨u, hu, hid, _⟩ := hopen c t ht
    rw [← hid]
    exact h.open_home c u hu
  · intro c t ht
    obtain ⟨u, hu, hid, hstart⟩ := hopen c t ht
    rw [← hid, ← hstart]
    exact h.open_start c u hu
  · intro c
    have hstarts := congrArg (List.map Txn.start) (hstack c)
    rw [List.map_map, List.map_map] at hstarts
    have horder : ((m'.stack c).map (Txn.start ∘ Txn.shape)).Pairwise (· ≥ ·) :=
      hstarts ▸ h.ordered c
    exact horder
  · simpa only [htable, hnext] using h.row_lt
  · simpa only [htable] using h.row_span
  · simpa only [htable] using h.stops
  · simpa only [htable] using h.nested
  · intro r hr t ht
    obtain ⟨u, hu, _, hstart⟩ := hopen _ t ht
    rw [← hstart]
    exact h.apart r (htable ▸ hr) u hu

theorem withOutputs (h : m.Timed home seen now) {os : List Output} (hquiet : ∀ o ∈ os, o.Quiet) :
    (m.withOutputs os).Timed home seen now :=
  h.of_shape rfl (fun _ => rfl) (txnTable_of_quiet (m.outputs_withOutputs os) hquiet)

theorem access (h : m.Timed home seen now) (ctx : Int64) (row : AccessRow) :
    ((m.countAccess ctx).write (.access row)).Timed home seen now := by
  refine h.of_shape ?_ ?_ ?_
  · rfl
  · intro c
    have hstack := m.stack_countAccess ctx c
    have hshape : ((m.countAccess ctx).stack c).map Txn.shape = (m.stack c).map Txn.shape := by
      rw [hstack]
      split
      · next hc => rw [TxnStack.map_shape_addAccesses, hc]
      · rfl
    exact hshape
  · rw [txnTable_of_append ((m.countAccess ctx).outputs_write (.access row))]
    exact List.append_nil _

/-- Time passes, and whatever is open now was seen. -/
theorem later (h : m.Timed home seen now) {seen' : Nat → Prop} {now' : UInt64} (hnow : now ≤ now')
    (hseen : ∀ i, seen i → seen' i) (hopen : ∀ c, ∀ t ∈ m.stack c, seen' t.id) :
    m.Timed home seen' now' where
  open_lt := h.open_lt
  open_home := h.open_home
  open_start c t ht := ⟨UInt64.le_trans (h.open_start c t ht).1 hnow, Or.inl (hopen c t ht)⟩
  ordered := h.ordered
  row_lt := h.row_lt
  row_span r hr := by
    obtain ⟨hspan, hstop, hr⟩ := h.row_span r hr
    exact ⟨hspan, UInt64.le_trans hstop hnow, hr.imp_left (hseen r.id)⟩
  stops := h.stops
  nested := h.nested
  apart := h.apart

end Timed

/-- In the context `ctx` some transactions end and some open. Of those that end with a row, what
    is open afterwards is new or was there before. -/
structure Changes (m m' : Monitor) (ctx : Int64) (now : UInt64) (rows : List TxnRow) : Prop where
  next : m.txnIds.next ≤ m'.txnIds.next
  elsewhere : ∀ c, c ≠ ctx → m'.stack c = m.stack c
  stack : ∀ t ∈ m'.stack ctx, t ∈ m.stack ctx ∨
    (m.txnIds.next ≤ t.id ∧ t.id < m'.txnIds.next ∧ t.start = now)
  ordered : (m'.stack ctx).Ordered
  table : m'.txnTable = m.txnTable ++ rows
  rows : ∀ r ∈ rows, ∃ u ∈ m.stack ctx, r = u.row now ∧
    ∀ t ∈ m'.stack ctx, t.start = now ∨ t.start ≤ u.start

namespace Changes

variable {home : Nat → Int64} {seen : Nat → Prop} {now : UInt64} {m m' : Monitor} {ctx : Int64}
  {rows : List TxnRow}

theorem mem_stack (hc : m.Changes m' ctx now rows) {c : Int64} {t : Txn} (ht : t ∈ m'.stack c) :
    t ∈ m.stack c ∨ (c = ctx ∧ m.txnIds.next ≤ t.id ∧ t.id < m'.txnIds.next ∧ t.start = now) := by
  by_cases heq : c = ctx
  · subst heq
    exact (hc.stack t ht).imp_right fun hnew => ⟨rfl, hnew⟩
  · exact Or.inl (hc.elsewhere c heq ▸ ht)

theorem mem_table (hc : m.Changes m' ctx now rows) {r : TxnRow} (hr : r ∈ m'.txnTable) :
    r ∈ m.txnTable ∨ r ∈ rows := List.mem_append.mp (hc.table ▸ hr)

/-- A number that is not new keeps its context. -/
theorem extendHome_eq {i : Nat} (hi : i < m.txnIds.next) :
    extendHome home m.txnIds.next ctx i = home i := if_pos hi

theorem home_row (hc : m.Changes m' ctx now rows) (h : m.Timed home seen now) {r : TxnRow}
    (hr : r ∈ rows) : extendHome home m.txnIds.next ctx r.id = ctx := by
  obtain ⟨u, hu, rfl, _⟩ := hc.rows r hr
  exact (extendHome_eq (h.open_lt ctx u hu)).trans (h.open_home ctx u hu)

/-- A row that is new lies around or after one that is not. -/
theorem nestsOrFollows (hc : m.Changes m' ctx now rows) (h : m.Timed home seen now)
    {r r' : TxnRow} (hr : r ∈ m.txnTable) (hr' : r' ∈ rows)
    (heq : extendHome home m.txnIds.next ctx r.id = extendHome home m.txnIds.next ctx r'.id) :
    r.NestsOrFollows r' := by
  rw [extendHome_eq (h.row_lt r hr), hc.home_row h hr'] at heq
  obtain ⟨u, hu, rfl, _⟩ := hc.rows r' hr'
  rcases h.apart r hr u (heq ▸ hu) with hafter | hbefore
  · exact Or.inr (Or.inr (Or.inl hafter))
  · exact Or.inl ⟨hbefore, (h.row_span r hr).2.1⟩

theorem nested (hc : m.Changes m' ctx now rows) (h : m.Timed home seen now) {r r' : TxnRow}
    (hr : r ∈ m'.txnTable) (hr' : r' ∈ m'.txnTable)
    (heq : extendHome home m.txnIds.next ctx r.id = extendHome home m.txnIds.next ctx r'.id) :
    r.NestsOrFollows r' := by
  rcases hc.mem_table hr with hr | hr <;> rcases hc.mem_table hr' with hr' | hr'
  · rw [extendHome_eq (h.row_lt r hr), extendHome_eq (h.row_lt r' hr')] at heq
    exact h.nested r hr r' hr' heq
  · exact hc.nestsOrFollows h hr hr' heq
  · exact (hc.nestsOrFollows h hr' hr heq.symm).symm
  · obtain ⟨u, _, rfl, _⟩ := hc.rows r hr
    obtain ⟨u', _, rfl, _⟩ := hc.rows r' hr'
    exact .of_stop_eq rfl

theorem apart (hc : m.Changes m' ctx now rows) (h : m.Timed home seen now) {r : TxnRow} {t : Txn}
    (hr : r ∈ m'.txnTable) (ht : t ∈ m'.stack (extendHome home m.txnIds.next ctx r.id)) :
    r.stop ≤ t.start ∨ t.start ≤ r.start := by
  rcases hc.mem_table hr with hr | hr
  · rw [extendHome_eq (h.row_lt r hr)] at ht
    rcases hc.mem_stack ht with ht | ⟨_, _, _, hnew⟩
    · exact h.apart r hr t ht
    · exact Or.inl (hnew ▸ (h.row_span r hr).2.1)
  · rw [hc.home_row h hr] at ht
    obtain ⟨u, _, rfl, hrest⟩ := hc.rows r hr
    exact (hrest t ht).imp_left fun hnew => UInt64.le_of_eq hnew.symm

theorem stops (hc : m.Changes m' ctx now rows) (h : m.Timed home seen now) :
    (m'.txnTable.map TxnRow.stop).Pairwise (· ≤ ·) := by
  have hnow : ∀ stop ∈ rows.map TxnRow.stop, stop = now := by
    intro stop hstop
    obtain ⟨r, hr, rfl⟩ := List.mem_map.mp hstop
    obtain ⟨u, _, rfl, _⟩ := hc.rows r hr
    rfl
  rw [hc.table, List.map_append]
  refine List.pairwise_append.mpr ⟨h.stops, ?_, ?_⟩
  · apply List.pairwise_of_forall_mem_list
    intro stop hstop stop' hstop'
    rw [hnow stop hstop, hnow stop' hstop']
    exact UInt64.le_refl _
  · intro stop hstop stop' hstop'
    obtain ⟨r, hr, rfl⟩ := List.mem_map.mp hstop
    rw [hnow stop' hstop']
    exact (h.row_span r hr).2.1

end Changes

namespace Timed

variable {home : Nat → Int64} {seen : Nat → Prop} {now : UInt64} {m m' : Monitor}

theorem change (h : m.Timed home seen now) {ctx : Int64} {rows : List TxnRow}
    (hc : m.Changes m' ctx now rows) :
    m'.Timed (extendHome home m.txnIds.next ctx) seen now where
  open_lt c t ht := by
    rcases hc.mem_stack ht with ht | ⟨_, _, hlt, _⟩
    · exact Nat.lt_of_lt_of_le (h.open_lt c t ht) hc.next
    · exact hlt
  open_home c t ht := by
    rcases hc.mem_stack ht with ht | ⟨heq, hle, _, _⟩
    · rw [Changes.extendHome_eq (h.open_lt c t ht)]
      exact h.open_home c t ht
    · rw [heq]
      exact if_neg (Nat.not_lt.mpr hle)
  open_start c t ht := by
    rcases hc.mem_stack ht with ht | ⟨_, _, _, hnew⟩
    · exact h.open_start c t ht
    · exact ⟨hnew ▸ UInt64.le_refl _, Or.inr hnew⟩
  ordered c := by
    by_cases heq : c = ctx
    · exact heq ▸ hc.ordered
    · rw [hc.elsewhere c heq]
      exact h.ordered c
  row_lt r hr := by
    rcases hc.mem_table hr with hr | hr
    · exact Nat.lt_of_lt_of_le (h.row_lt r hr) hc.next
    · obtain ⟨u, hu, rfl, _⟩ := hc.rows r hr
      exact Nat.lt_of_lt_of_le (h.open_lt ctx u hu) hc.next
  row_span r hr := by
    rcases hc.mem_table hr with hr | hr
    · exact h.row_span r hr
    · obtain ⟨u, hu, rfl, _⟩ := hc.rows r hr
      obtain ⟨hstart, hseen⟩ := h.open_start ctx u hu
      exact ⟨hstart, UInt64.le_refl _, hseen⟩
  stops := hc.stops h
  nested _ hr _ hr' := hc.nested h hr hr'
  apart _ hr _ ht := hc.apart h hr ht

theorem openTxn (h : m.Timed home seen now) (key : Nat) (side : Side) (ctx : Int64) :
    (m.openTxn key side ctx now).Timed (extendHome home m.txnIds.next ctx) seen now := by
  have hstack : (m.openTxn key side ctx now).stack ctx =
      Txn.opened m.txnIds.next now key side :: m.stack ctx := by
    rw [stack_openTxn, if_pos rfl]
  refine h.change ⟨Nat.le_succ _, ?_, ?_, ?_, (List.append_nil _).symm, by simp⟩
  · intro c hc
    rw [stack_openTxn, if_neg (Ne.symm hc)]
  · intro t ht
    rw [hstack] at ht
    rcases List.mem_cons.mp ht with rfl | ht
    · exact Or.inr ⟨Nat.le_refl _, Nat.lt_succ_self _, rfl⟩
    · exact Or.inl ht
  · rw [hstack]
    refine List.pairwise_cons.mpr ⟨?_, h.ordered ctx⟩
    intro start hstart
    obtain ⟨t, ht, rfl⟩ := List.mem_map.mp hstart
    exact (h.open_start ctx t ht).1

theorem closeTxn (h : m.Timed home seen now) (key : Nat) (side : Side) (ctx : Int64)
    (purge : Bool) :
    (m.closeTxn key side ctx now purge).2.Timed (extendHome home m.txnIds.next ctx) seen now := by
  have hnext := m.next_closeTxn key side ctx now purge
  have hstack : (m.closeTxn key side ctx now purge).2.stack ctx =
      (m.stack ctx).unwound key side now purge m.txnIds.next := by
    rw [stack_closeTxn, if_pos rfl]
  have htable := txnTable_of_append (m.outputs_closeTxn key side ctx now purge)
  refine h.change ⟨hnext ▸ Nat.le_add_right _ _, ?_, ?_, ?_, htable, ?_⟩
  · intro c hc
    rw [stack_closeTxn, if_neg (Ne.symm hc)]
  · intro t ht
    rw [hstack] at ht
    rw [hnext]
    exact (TxnStack.mem_unwound ht).imp_right fun ⟨hle, hlt, hstart, _⟩ => ⟨hle, hlt, hstart⟩
  · rw [hstack]
    exact (h.ordered ctx).unwound fun t ht => (h.open_start ctx t ht).1
  · intro r hr
    obtain ⟨o, ho, hrow⟩ := List.mem_filterMap.mp hr
    have hwritten : o = .record (.txn r) := Output.eq_of_txnRow? hrow
    obtain ⟨u, hu, hr, _⟩ := LockStore.written_of_mem_unwindOutputs (hwritten ▸ ho)
    refine ⟨u, TxnStack.closed_subset key side _ hu, hr, ?_⟩
    intro t ht
    exact (h.ordered ctx).start_of_mem_unwound hu (hstack ▸ ht)

end Timed

/-- Rows and stacks are timed, with contexts that are those of `home` below `bound`. -/
def TimedFrom (home : Nat → Int64) (bound : Nat) (seen : Nat → Prop) (now : UInt64) (m : Monitor) :
    Prop :=
  bound ≤ m.txnIds.next ∧
    ∃ home', (∀ i, i < bound → home' i = home i) ∧ m.Timed home' seen now

namespace TimedFrom

variable {home : Nat → Int64} {bound : Nat} {seen : Nat → Prop} {now : UInt64} {m m' : Monitor}

theorem same (h : m.TimedFrom home bound seen now) (hnext : m'.txnIds.next = m.txnIds.next)
    (hm : ∀ home', m.Timed home' seen now → m'.Timed home' seen now) :
    m'.TimedFrom home bound seen now := by
  obtain ⟨hbound, home', hagree, htimed⟩ := h
  exact ⟨hnext ▸ hbound, home', hagree, hm home' htimed⟩

theorem extend (h : m.TimedFrom home bound seen now) (ctx : Int64)
    (hnext : m.txnIds.next ≤ m'.txnIds.next)
    (hm : ∀ home', m.Timed home' seen now →
      m'.Timed (extendHome home' m.txnIds.next ctx) seen now) :
    m'.TimedFrom home bound seen now := by
  obtain ⟨hbound, home', hagree, htimed⟩ := h
  refine ⟨Nat.le_trans hbound hnext, _, ?_, hm home' htimed⟩
  intro i hi
  exact (if_pos (Nat.lt_of_lt_of_le hi hbound)).trans (hagree i hi)

theorem withOutputs (h : m.TimedFrom home bound seen now) {os : List Output}
    (hquiet : ∀ o ∈ os, o.Quiet) : (m.withOutputs os).TimedFrom home bound seen now :=
  h.same rfl fun _ htimed => htimed.withOutputs hquiet

theorem locks (h : m.TimedFrom home bound seen now) (locks : LockStore) :
    { m with locks := locks }.TimedFrom home bound seen now :=
  h.same rfl fun _ htimed => htimed.of_shape rfl (fun _ => rfl) rfl

theorem report (h : m.TimedFrom home bound seen now) (i : Inconsistency) :
    (m.report i).TimedFrom home bound seen now := by
  rw [report_eq_withOutputs]
  exact h.withOutputs (List.forall_mem_singleton.mpr trivial)

theorem closeTxn (h : m.TimedFrom home bound seen now) (key : Nat) (side : Side) (ctx : Int64)
    (purge : Bool) : (m.closeTxn key side ctx now purge).2.TimedFrom home bound seen now := by
  apply h.extend ctx
  · rw [next_closeTxn]
    exact Nat.le_add_right _ _
  · exact fun _ htimed => htimed.closeTxn key side ctx purge

theorem step (h : m.TimedFrom home bound seen now) (key : Nat) {t : Transition}
    (ht : t.time = now) : (m.step key t).1.TimedFrom home bound seen now := by
  apply step_induction (P := fun m => m.TimedFrom home bound seen now) _ _ _ _ h
  · exact fun m i _ h => h.report i
  · exact fun m f _ h => h.locks _
  · intro m h
    rw [ht]
    exact h.extend t.ctx (Nat.le_succ _) fun _ htimed => htimed.openTxn key t.op.side t.ctx
  · intro m side owner purge h _
    rw [ht]
    exact h.closeTxn key side owner purge

theorem closeAll (h : m.TimedFrom home bound seen now) :
    (m.closeAll now).TimedFrom home bound seen now := by
  apply closeAll_induction (P := fun m => m.TimedFrom home bound seen now) _ _ h
  · intro m count ctx h
    have hquiet : ∀ o ∈ [Output.remark (.stillActive count ctx)], o.Quiet :=
      List.forall_mem_singleton.mpr trivial
    exact h.withOutputs hquiet
  · exact fun m ctx top below h _ => h.closeTxn top.lock top.side ctx false

end TimedFrom

theorem keptAt_timedFrom (home : Nat → Int64) (bound : Nat) (seen : Nat → Prop) (now : UInt64) :
    KeptAt now fun m => m.TimedFrom home bound seen now where
  plain h hplain := h.withOutputs fun o ho => (hplain o ho).quiet
  unseen _ _ _ _ h := h.report _
  access ctx row h := h.same rfl fun _ htimed => htimed.access ctx row
  withLock _ _ _ _ _ _ h := (h.withOutputs fun _ ho => quiet_of_mem_lockRows ho).locks _
  freeRange _ _ _ h :=
    (h.withOutputs fun _ ho => quiet_of_mem_reports _ ho).locks _
  operate key _ ht h := h.step key ht

end Monitor

/-! ### Whole traces -/

namespace Session

/-- At some moment of the trace the transaction `i` is on the stack of `ctx`. -/
def LivedOn (start : Session) (es : List Event) (ctx : Int64) (i : Nat) : Prop :=
  ∃ earlier later, es = earlier ++ later ∧
    ∃ t ∈ (start.run earlier).1.monitor.stack ctx, t.id = i

theorem livedOn_concat (start : Session) (es : List Event) (e : Event) (ctx : Int64) (i : Nat) :
    start.LivedOn (es ++ [e]) ctx i ↔ start.LivedOn es ctx i ∨
      ∃ t ∈ (start.run (es ++ [e])).1.monitor.stack ctx, t.id = i := by
  constructor
  · rintro ⟨earlier, later, hsplit, hopen⟩
    rcases List.eq_nil_or_concat later with rfl | ⟨later, last, rfl⟩
    · rw [List.append_nil] at hsplit
      exact Or.inr (hsplit ▸ hopen)
    · rw [List.concat_eq_append, ← List.append_assoc] at hsplit
      exact Or.inl ⟨earlier, later, (List.append_inj' hsplit rfl).1, hopen⟩
  · rintro (⟨earlier, later, rfl, hopen⟩ | hopen)
    · exact ⟨earlier, later ++ [e], List.append_assoc _ _ _, hopen⟩
    · exact ⟨es ++ [e], [], (List.append_nil _).symm, hopen⟩

/-- One more event is followed, or the run has stopped before it. -/
theorem run_concat_cases (start : Session) (es : List Event) (e : Event) :
    (start.run (es ++ [e])).1 = (start.run es).1 ∨
      (start.run (es ++ [e])).1 = ((start.run es).1.step e).1 := by
  induction es generalizing start with
  | nil => exact Or.inr (congrArg Prod.fst (start.run_singleton e))
  | cons e' es ih =>
    simp only [List.cons_append, run]
    split
    · exact ih _
    · exact Or.inl rfl

/-- In a trace whose times never decrease, no time of the past is after the next event. -/
theorem lastTime_run_le {start : Session} {es : List Event} {time : UInt64}
    (hstart : start.lastTime ≤ time) (hes : ∀ e ∈ es, e.time ≤ time) :
    (start.run es).1.lastTime ≤ time := by
  apply run_induction (P := fun s => s.lastTime ≤ time) _ hstart
  intro s e he hs
  have hmax : (s.step e).1.lastTime = if s.lastTime ≤ e.time then e.time else s.lastTime :=
    lastTime_step s e
  rw [hmax]
  split
  · exact hes e he
  · exact hs

/-- What lived by then has the contexts that `home` tells, and so has what lives after one more
    event. -/
theorem home_concat {start : Session} {es : List Event} {e : Event} {home : Nat → Int64}
    {seen : Nat → Prop} {now : UInt64}
    (htimed : (start.run (es ++ [e])).1.monitor.Timed home seen now)
    (hhome : ∀ c i, start.LivedOn es c i →
      home i = c ∧ i < (start.run (es ++ [e])).1.monitor.txnIds.next) {c : Int64} {i : Nat}
    (hlived : start.LivedOn (es ++ [e]) c i) :
    home i = c ∧ i < (start.run (es ++ [e])).1.monitor.txnIds.next := by
  rcases (livedOn_concat start es e c i).mp hlived with hlived | ⟨t, ht, rfl⟩
  · exact hhome c i hlived
  · exact ⟨htimed.open_home c t ht, htimed.open_lt c t ht⟩

/-- Every number has the context of the stack on which its transaction lived, and the rows and
    the stacks are timed. -/
theorem exists_timed (config : Config) (symbols : SymbolTable) {es : List Event}
    (hes : es.Pairwise fun e e' => e.time ≤ e'.time) :
    let start := Session.initial config symbols
    ∃ home : Nat → Int64,
      (∀ c i, start.LivedOn es c i → home i = c ∧ i < (start.run es).1.monitor.txnIds.next) ∧
      (start.run es).1.monitor.Timed home (fun i => ∃ c, start.LivedOn es c i)
        (start.run es).1.lastTime := by
  intro start
  induction es using List.reverseRecOn with
  | nil =>
    refine ⟨fun _ => 0, ?_, .initial config.skipEmpty⟩
    rintro c i ⟨earlier, later, hsplit, t, ht, _⟩
    obtain ⟨rfl, _⟩ := List.append_eq_nil_iff.mp hsplit.symm
    cases ht
  | append_singleton es e ih =>
    obtain ⟨hes, _, hlast⟩ := List.pairwise_append.mp hes
    obtain ⟨home, hhome, htimed⟩ := ih hes
    have hopen : ∀ c, ∀ t ∈ (start.run (es ++ [e])).1.monitor.stack c,
        ∃ c, start.LivedOn (es ++ [e]) c t.id := fun c t ht =>
      ⟨c, (livedOn_concat start es e c t.id).mpr (Or.inr ⟨t, ht, rfl⟩)⟩
    have hseen : ∀ i, (∃ c, start.LivedOn es c i) → ∃ c, start.LivedOn (es ++ [e]) c i :=
      fun i ⟨c, hlived⟩ => ⟨c, (livedOn_concat start es e c i).mpr (Or.inl hlived)⟩
    rcases run_concat_cases start es e with heq | heq
    · have hnow : (start.run (es ++ [e])).1.monitor.Timed home
          (fun i => ∃ c, start.LivedOn (es ++ [e]) c i) (start.run (es ++ [e])).1.lastTime := by
        rw [heq] at hopen ⊢
        exact htimed.later (UInt64.le_refl _) hseen hopen
      exact ⟨home, fun c i => home_concat hnow (heq.symm ▸ hhome), hnow⟩
    · have hle : (start.run es).1.lastTime ≤ e.time :=
        lastTime_run_le (UInt64.zero_le) fun e' he' => hlast e' he' e List.mem_cons_self
      have hpresent := htimed.later hle (fun _ hlived => hlived) fun c t ht =>
        ⟨c, es, [], (List.append_nil es).symm, t, ht, rfl⟩
      have hstep := (Monitor.keptAt_timedFrom home (start.run es).1.monitor.txnIds.next _
        e.time).session.event ⟨Nat.le_refl _, home, fun _ _ => rfl, hpresent⟩
      obtain ⟨hbound, home', hagree, htimed'⟩ := hstep
      have hlast : ((start.run es).1.step e).1.lastTime = e.time :=
        (lastTime_step _ e).trans (if_pos hle)
      rw [← heq] at hbound htimed' hlast
      have hnow := htimed'.later (UInt64.le_refl _) hseen hopen
      refine ⟨home', fun c i => home_concat hnow ?_, hlast ▸ hnow⟩
      intro c i hlived
      obtain ⟨hc, hlt⟩ := hhome c i hlived
      exact ⟨(hagree i hlt).trans hc, Nat.lt_of_lt_of_le hlt hbound⟩

/-- The rows on transactions are intervals in the order of their ends, and no two of them cross,
    unless they lived on different stacks. -/
structure Nest (start : Session) (es : List Event) (rows : List TxnRow) : Prop where
  spans : ∀ r ∈ rows, r.start ≤ r.stop
  stops : (rows.map TxnRow.stop).Pairwise (· ≤ ·)
  nested : ∀ r ∈ rows, ∀ r' ∈ rows,
    (∀ c c', start.LivedOn es c r.id → start.LivedOn es c' r'.id → c = c') → r.NestsOrFollows r'

theorem nest_of_timed {start : Session} {es : List Event} {home : Nat → Int64} {m : Monitor}
    {now : UInt64} (htimed : m.Timed home (fun i => ∃ c, start.LivedOn es c i) now)
    (hhome : ∀ c i, start.LivedOn es c i → home i = c) : start.Nest es m.txnTable where
  spans r hr := (htimed.row_span r hr).1
  stops := htimed.stops
  nested r hr r' hr' hsame := by
    rcases (htimed.row_span r hr).2.2 with ⟨c, hlived⟩ | hmoment
    · rcases (htimed.row_span r' hr').2.2 with ⟨c', hlived'⟩ | hmoment'
      · apply htimed.nested r hr r' hr'
        rw [hhome c r.id hlived, hhome c' r'.id hlived', hsame c c' hlived hlived']
      · exact (TxnRow.NestsOrFollows.of_moment hmoment').symm
    · exact .of_moment hmoment

/-- If the times of a trace never decrease, the intervals of transactions nest: on every stack at
    all moments, and among the rows before and after the end of the trace. A transaction lives on
    one stack only. -/
theorem txns_nest_of_run (config : Config) (symbols : SymbolTable) {es : List Event}
    (hes : es.Pairwise fun e e' => e.time ≤ e'.time) :
    let start := Session.initial config symbols
    let s := (start.run es).1
    (∀ earlier later, es = earlier ++ later → ∀ c, (((start.run earlier).1.monitor.stack c).map
      Txn.start).Pairwise (· ≥ ·)) ∧
    (∀ c c' i, start.LivedOn es c i → start.LivedOn es c' i → c = c') ∧
    start.Nest es s.monitor.txnTable ∧ start.Nest es s.finish.monitor.txnTable := by
  intro start s
  obtain ⟨home, hhome, htimed⟩ := exists_timed config symbols hes
  have hfinish := (Monitor.keptAt_timedFrom home s.monitor.txnIds.next _ s.lastTime).finish (s := s)
    ⟨Nat.le_refl _, home, fun _ _ => rfl, htimed⟩ (fun h => h.closeAll)
    (fun h hplain => h.withOutputs fun o ho => (hplain o ho).quiet)
  obtain ⟨_, home', hagree, htimed'⟩ := hfinish
  refine ⟨?_, ?_, ?_, ?_⟩
  · rintro earlier later rfl c
    obtain ⟨_, _, hearlier⟩ := exists_timed config symbols (List.pairwise_append.mp hes).1
    exact hearlier.ordered c
  · intro c c' i hlived hlived'
    exact (hhome c i hlived).1.symm.trans (hhome c' i hlived').1
  · exact nest_of_timed htimed fun c i hlived => (hhome c i hlived).1
  · apply nest_of_timed htimed'
    intro c i hlived
    obtain ⟨hc, hlt⟩ := hhome c i hlived
    exact (hagree i hlt).trans hc

/-- A writer takes a lock away from a context that has it twice, and what this context holds
    besides is released in the wrong order. -/
def crossingHolds : List Event :=
  [⟨1, 1, .acquire .reader .none 0, 0x100, "rwlock_t", Site.unknown, 0⟩,
    ⟨2, 1, .acquire .writer .none 0, 0x200, "spinlock_t", Site.unknown, 0⟩,
    ⟨3, 1, .acquire .reader .none 0, 0x100, "rwlock_t", Site.unknown, 0⟩,
    ⟨5, 2, .acquire .writer .none 0, 0x100, "rwlock_t", Site.unknown, 0⟩,
    ⟨6, 1, .acquire .writer .none 0, 0x300, "spinlock_t", Site.unknown, 0⟩,
    ⟨7, 1, .release .writer 0, 0x200, "spinlock_t", Site.unknown, 0⟩,
    ⟨9, 2, .access .read 4, 0x400, "", Site.unknown, 0⟩]

theorem txns_nest_of_crossingHolds :
    let start := Session.initial { Config.default with skipEmpty := false } ∅
    (start.run crossingHolds).1.finish.monitor.txnTable =
        [⟨3, 3, 5⟩, ⟨5, 6, 7⟩, ⟨2, 2, 7⟩, ⟨6, 7, 9⟩, ⟨4, 5, 9⟩] ∧
      start.Nest crossingHolds (start.run crossingHolds).1.finish.monitor.txnTable :=
  ⟨by decide +kernel, (txns_nest_of_run _ ∅ (by decide +kernel)).2.2.2⟩

end Session

end LockTrace
