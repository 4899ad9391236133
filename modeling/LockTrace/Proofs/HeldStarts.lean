import LockTrace.Proofs.HeldListings
import LockTrace.Proofs.Positions

/-!
# When held sub-locks were acquired

A row on a held sub-lock has the start of the position that its lock has last, which is not always
that of the acquisition in force. A legal trace whose times never decrease bounds it all the same
(`TxnRow.DatedBy`): it is the time of some acquisition of the sub-lock, and if it is later than the
start of the transaction, then the sub-lock was acquired again since, and that acquisition outlasts
the transaction. The sub-lock itself is held from before the start of the transaction to its end.

What a row relies on as it is written is told by the roster of that moment (`Roster.Vouches`), and
closing a transaction leaves it so. That is all that the end of a trace needs, where every
transaction is closed and no acquisition ends. Before, it follows from the positions
(`Monitor.Recalls.vouched`).
-/

namespace LockTrace

/-! ### Acquisitions that last -/

/-- Each of the acquisitions is there again, and lasts at least as long. -/
def Tenure.Outlasted (ts ts' : List Tenure) : Prop :=
  ∀ t ∈ ts, ∃ t' ∈ ts', t'.stay = t.stay ∧ t.stop ≤ t'.stop

theorem Tenure.outlasted_of_subset {ts ts' : List Tenure} (h : ts ⊆ ts') : Outlasted ts ts' :=
  fun t ht => ⟨t, h ht, rfl, UInt64.le_refl _⟩

namespace Roster

variable (r : Roster)

theorem mem_closed_of_present {r : Roster} {s : Stay} (hs : s ∈ r.present) (time : UInt64) :
    s.upTo time ∈ r.closed time :=
  List.mem_append_right _ (List.mem_map_of_mem hs)

theorem exists_tenure {r : Roster} {s : Stay} (hs : s ∈ r.begun) (time : UInt64) :
    ∃ t ∈ r.closed time, t.stay = s := by
  rcases List.mem_append.mp hs with hs | hs
  · obtain ⟨t, ht, rfl⟩ := List.mem_map.mp hs
    exact ⟨t, List.mem_append_left _ ht, rfl⟩
  · exact ⟨s.upTo time, mem_closed_of_present hs time, rfl⟩

theorem outlasted_later {now now' : UInt64} (hnow : now ≤ now') :
    Tenure.Outlasted (r.closed now) (r.closed now') := by
  intro t ht
  rcases List.mem_append.mp ht with ht | ht
  · exact ⟨t, List.mem_append_left _ ht, rfl, UInt64.le_refl _⟩
  · obtain ⟨s, hs, rfl⟩ := List.mem_map.mp ht
    exact ⟨s.upTo now', mem_closed_of_present hs now', rfl, hnow⟩

theorem outlasted_arrive (s : Stay) (now : UInt64) :
    Tenure.Outlasted (r.closed now) ((r.arrive s).closed now) := by
  apply Tenure.outlasted_of_subset
  exact List.append_subset.mpr ⟨List.subset_append_left _ _,
    List.subset_append_of_subset_right _ (List.map_subset _ (List.subset_cons_self _ _))⟩

theorem outlasted_leave (h : Hold) (now : UInt64) :
    Tenure.Outlasted (r.closed now) ((r.leave h now).closed now) :=
  Tenure.outlasted_of_subset (r.closed_leave_perm h now).symm.subset

end Roster

/-! ### Dates of rows -/

/-- The sub-lock is held from the start of the row to its end, and `taken` is the time of an
    acquisition of it. That is by the start of the row, unless an acquisition since then lasts until
    the end of the row; and then it is by the time of that one. -/
structure TxnRow.DatedBy (row : TxnRow) (ts : List Tenure) (address : UInt64) (side : Side)
    (taken : UInt64) : Prop where
  covered : ∃ t ∈ ts, t.stay.On address side ∧ t.start ≤ row.start ∧ row.stop ≤ t.stop
  acquired : ∃ t ∈ ts, t.stay.On address side ∧ t.start = taken
  latest : taken ≤ row.start ∨ ∃ t ∈ ts, t.stay.On address side ∧ row.start < t.start ∧
    taken ≤ t.start ∧ t.start ≤ row.stop ∧ row.stop ≤ t.stop

theorem TxnRow.DatedBy.mono {row : TxnRow} {ts ts' : List Tenure} {address : UInt64} {side : Side}
    {taken : UInt64} (h : row.DatedBy ts address side taken) (hts : Tenure.Outlasted ts ts') :
    row.DatedBy ts' address side taken where
  covered := by
    obtain ⟨t, ht, hon, hstart, hstop⟩ := h.covered
    obtain ⟨t', ht', hstay, hlasts⟩ := hts t ht
    have hsince : t'.start = t.start := congrArg Stay.since hstay
    exact ⟨t', ht', hstay ▸ hon, hsince ▸ hstart, UInt64.le_trans hstop hlasts⟩
  acquired := by
    obtain ⟨t, ht, hon, hstart⟩ := h.acquired
    obtain ⟨t', ht', hstay, _⟩ := hts t ht
    exact ⟨t', ht', hstay ▸ hon, (congrArg Stay.since hstay).trans hstart⟩
  latest := by
    refine h.latest.imp_right ?_
    rintro ⟨t, ht, hon, hafter, htaken, hstart, hstop⟩
    obtain ⟨t', ht', hstay, hlasts⟩ := hts t ht
    have hsince : t'.start = t.start := congrArg Stay.since hstay
    rw [← hsince] at hafter htaken hstart
    exact ⟨t', ht', hstay ▸ hon, hafter, htaken, hstart, UInt64.le_trans hstop hlasts⟩

/-- What the roster says about the sub-lock of a transaction: an acquisition before the transaction
    is still in force, and the latest position of the lock is that of some acquisition, from no
    later than one that is in force. -/
structure Roster.Vouches (r : Roster) (time : UInt64) (lock : Lock) (t : Txn) : Prop where
  covered : ∃ s ∈ r.present, s.On lock.address t.side ∧ s.since ≤ t.start
  taken : ∀ p ∈ lock.history.head?, ∃ s ∈ r.begun, s.On lock.address t.side ∧ s.since = p.start
  latest : ∀ p ∈ lock.history.head?, ∃ s ∈ r.present, s.On lock.address t.side ∧
    p.start ≤ s.since ∧ s.since ≤ time

/-- A row that is written now has its date, whatever lies on the transaction. -/
theorem Roster.Vouches.datedBy {r : Roster} {time : UInt64} {lock : Lock} {t top : Txn}
    (h : r.Vouches time lock t) (htop : t.start ≤ top.start) {p : Position}
    (hp : p ∈ lock.history.head?) :
    (top.row time).DatedBy (r.closed time) lock.address t.side p.start where
  covered := by
    obtain ⟨s, hs, hon, hsince⟩ := h.covered
    exact ⟨s.upTo time, Roster.mem_closed_of_present hs time, hon, UInt64.le_trans hsince htop,
      UInt64.le_refl _⟩
  acquired := by
    obtain ⟨s, hs, hon, hsince⟩ := h.taken p hp
    obtain ⟨u, hu, rfl⟩ := Roster.exists_tenure hs time
    exact ⟨u, hu, hon, hsince⟩
  latest := by
    obtain ⟨s, hs, hon, hstart, htime⟩ := h.latest p hp
    by_cases hsince : s.since ≤ top.start
    · exact Or.inl (UInt64.le_trans hstart hsince)
    · exact Or.inr ⟨s.upTo time, Roster.mem_closed_of_present hs time, hon,
        UInt64.not_le.mp hsince, hstart, htime, UInt64.le_refl _⟩

/-! ### Rows that are written as a stack is unwound -/

namespace LockStore

variable {locks : LockStore} {time : UInt64}

theorem exists_of_held_mem_heldOutputs {txn : Nat} {seen : List Nat} {s : List Txn}
    {held : HeldRow} (h : .record (.held held) ∈ locks.heldOutputs txn time seen s) :
    ∃ t ∈ s, locks.RowOn txn t held := by
  induction s generalizing seen with
  | nil => cases h
  | cons t ts ih =>
    have hrest : ∀ {seen'}, .record (.held held) ∈ locks.heldOutputs txn time seen' ts →
        ∃ u ∈ t :: ts, locks.RowOn txn u held := by
      intro seen' hmem
      obtain ⟨u, hu, hrow⟩ := ih hmem
      exact ⟨u, List.mem_cons_of_mem _ hu, hrow⟩
    rcases locks.heldOutputs_cons txn time seen t ts with
      ⟨i, _, _, heq⟩ | ⟨_, _, heq⟩ | ⟨row, _, _, _, hrow, heq⟩
    · rw [heq] at h
      rcases List.mem_cons.mp h with hreport | h
      · cases hreport
      · exact hrest h
    · rw [heq] at h
      exact hrest h
    · rw [heq] at h
      rcases List.mem_cons.mp h with hfirst | h
      · cases hfirst
        exact ⟨t, List.mem_cons_self, hrow⟩
      · exact hrest h

/-- A row on a held sub-lock comes with the row of its transaction, and the sub-lock is that of
    this transaction or of one below it. -/
theorem exists_of_held_mem_unwindOutputs {skipEmpty : Bool} {key : Nat} {side : Side} {ctx : Int64}
    {purge : Bool} {s : TxnStack} {held : HeldRow}
    (h : .record (.held held) ∈ locks.unwindOutputs skipEmpty key side ctx time purge s) :
    ∃ top below, (top :: below) <:+ s ∧
      .record (.txn (top.row time)) ∈ locks.unwindOutputs skipEmpty key side ctx time purge s ∧
      ∃ t ∈ top :: below, locks.RowOn top.id t held := by
  induction s with
  | nil => cases h
  | cons top below ih =>
    rw [unwindOutputs] at h ⊢
    rcases List.mem_append.mp h with h | h
    · unfold closeOutputs at h ⊢
      split at h
      · cases List.mem_singleton.mp h
      · next hwritten =>
        rw [if_neg hwritten]
        rcases List.mem_cons.mp h with htxn | h
        · cases htxn
        · obtain ⟨t, ht, hrow⟩ := exists_of_held_mem_heldOutputs h
          exact ⟨top, below, List.suffix_refl _, List.mem_append_left _ List.mem_cons_self, t,
            List.mem_reverse.mp ht, hrow⟩
    · split at h
      · split at h
        · exact absurd rfl (purgeOutputs_forall (P := (· ≠ .record (.held held))) locks key ctx time
            (by simp) (by simp) h)
        · cases h
      · next hanchor =>
        rcases List.mem_append.mp h with h | h
        · exact absurd rfl (mismatchOutputs_forall (P := (· ≠ .record (.held held))) locks key time
            (by simp) h)
        · obtain ⟨top', below', hsuffix, htxn, hrow⟩ := ih h
          rw [if_neg hanchor]
          exact ⟨top', below', hsuffix.trans (List.suffix_cons _ _),
            List.mem_append_right _ (List.mem_append_right _ htxn), hrow⟩

end LockStore

namespace Monitor

/-! ### Transactions that the roster vouches for -/

/-- The roster vouches for every open transaction. -/
structure Vouched (m : Monitor) (r : Roster) (time : UInt64) : Prop where
  ordered : ∀ ctx, (m.stack ctx).Ordered
  started : ∀ ctx, ∀ t ∈ m.stack ctx, t.start ≤ time
  vouches : ∀ ctx, ∀ t ∈ m.stack ctx,
    ∃ lock, m.locks.get? t.lock = some lock ∧ r.Vouches time lock t

theorem Vouched.closeTxn {m : Monitor} {r : Roster} {time : UInt64} (h : m.Vouched r time)
    (key : Nat) (side : Side) (ctx : Int64) :
    (m.closeTxn key side ctx time false).2.Vouched r time := by
  have hstack := m.stack_closeTxn key side ctx time false
  constructor
  · intro c
    rw [hstack]
    split
    · exact (h.ordered ctx).unwound (h.started ctx)
    · exact h.ordered c
  · intro c t ht
    rw [hstack] at ht
    split at ht
    · rcases TxnStack.mem_unwound ht with ht | ⟨_, _, hnew, _⟩
      · exact h.started ctx t ht
      · exact hnew ▸ UInt64.le_refl _
    · exact h.started c t ht
  · intro c t ht
    rw [hstack] at ht
    rw [locks_closeTxn]
    split at ht
    · rcases TxnStack.mem_unwound ht with hmem | ⟨_, _, hnew, _⟩
      · exact h.vouches ctx t hmem
      · -- a transaction that is opened again has the sub-lock that it had
        obtain ⟨u, hu, hlock, hside⟩ := TxnStack.exists_of_mem_unwound ht
        obtain ⟨lock, hget, hvouches⟩ := h.vouches ctx u hu
        obtain ⟨s, hs, hon, hsince⟩ := hvouches.covered
        have hstart := UInt64.le_trans hsince (h.started ctx u hu)
        rw [hlock] at hget
        rw [hside] at hon
        exact ⟨lock, hget, ⟨s, hs, hon, hnew ▸ hstart⟩, hside ▸ hvouches.taken,
          hside ▸ hvouches.latest⟩
    · exact h.vouches c t ht

/-- All acquisitions in force and all positions of a lock with an open transaction are of the side
    of that transaction. -/
theorem Recalls.vouched {m : Monitor} {r : Roster} {now : UInt64} {strip : Site → Site}
    {l : Ledger} (h : m.Recalls r now) (hmirrors : m.Mirrors strip l) : m.Vouched r now where
  ordered ctx := (h.stacked ctx).ordered
  started ctx := (h.stacked ctx).started
  vouches ctx t ht := by
    obtain ⟨s, hs, hstands⟩ := exists_of_mem_of_forall₂ (h.stacked ctx).paired ht
    obtain ⟨lock, hget, hp⟩ := LockStore.get?_anchor hstands.anchor
    obtain ⟨haddress, hside⟩ := Prod.mk.inj hp
    have hpos : 0 < lock.count t.side :=
      hmirrors.inStep.count_pos hget ⟨t, ht, t.anchoredAt_self⟩
    refine ⟨lock, hget, ?_, ?_, ?_⟩
    · exact ⟨s, ((Roster.mem_having _ _).mp hs).1, ⟨haddress, hside⟩, hstands.since_le⟩
    · intro p hp
      have hmem := List.mem_of_mem_head? hp
      obtain ⟨u, hu, ⟨hlock, hsame⟩, hsince⟩ := h.taken t.lock lock hget p hmem
      have hheld := (hmirrors.inStep.tracked t.lock lock hget).held p hmem
      have hside' := hmirrors.side_eq hget hheld (mem_openTxns_iff.mpr ⟨ctx, ht⟩) rfl
      exact ⟨u, hu, ⟨hlock, hsame.trans hside'.symm⟩, hsince⟩
    · intro p hp
      obtain ⟨older, hhistory⟩ := List.head?_eq_some_iff.mp hp
      have hpositions := h.positions t.lock lock hget
      rw [hhistory] at hpositions
      obtain ⟨u, rest, hstart, _, hhaving⟩ := List.forall₂_cons_left_iff.mp hpositions
      obtain ⟨hu, hlock⟩ := (Roster.mem_having Hold.address lock.address).mp
        (hhaving ▸ List.mem_cons_self)
      exact ⟨u, hu, ⟨hlock, h.side_eq hmirrors hget hpos hu hlock⟩, hstart, h.since_le hu⟩

/-- No two rows on transactions have a number in common. -/
theorem Conserved.nodup_txnTable {m : Monitor} (h : m.Conserved) :
    (m.txnTable.map TxnRow.id).Nodup := by
  have hids : m.txnTable.map TxnRow.id = m.journal.txnRowIds := by
    rw [txnRowIds_eq]
    unfold txnTable
    rw [List.map_filterMap]
    congr 1
    funext o
    cases o with
    | record r => cases r <;> rfl
    | report i => rfl
    | remark r => rfl
  rw [hids]
  exact h.nodup_txnRowIds

/-! ### Monitors whose rows have their dates -/

/-- The row has one on its transaction, and the acquisitions date it. -/
def HeldDated (m : Monitor) (ts : List Tenure) (held : HeldRow) : Prop :=
  ∃ row ∈ m.txnTable, row.id = held.txn ∧ ∃ address side,
    m.place? held.lock = some (address, side) ∧ row.DatedBy ts address side held.taken.start

/-- All rows on held sub-locks have their dates. -/
def Dates (m : Monitor) (ts : List Tenure) : Prop := ∀ held ∈ m.heldTable, m.HeldDated ts held

namespace Dates

variable {m m' : Monitor} {ts : List Tenure}

theorem mono (h : m.Dates ts) {ts' : List Tenure} (hts : Tenure.Outlasted ts ts') :
    m.Dates ts' := by
  intro held hheld
  obtain ⟨row, hrow, hid, address, side, hplace, hdated⟩ := h held hheld
  exact ⟨row, hrow, hid, address, side, hplace, hdated.mono hts⟩

/-- The rows that come have to be dated, and the others stay so. -/
theorem of_append (h : m.Dates ts) {os : List Output} (houtputs : m'.outputs = m.outputs ++ os)
    (hos : ∀ held, .record (.held held) ∈ os → m'.HeldDated ts held) : m'.Dates ts := by
  intro held hheld
  unfold heldTable at hheld
  rw [houtputs, List.filterMap_append] at hheld
  rcases List.mem_append.mp hheld with hheld | hheld
  · obtain ⟨row, hrow, hid, address, side, hplace, hdated⟩ := h held hheld
    refine ⟨row, ?_, hid, address, side, place?_of_append houtputs hplace, hdated⟩
    rw [txnTable_of_append houtputs]
    exact List.mem_append_left _ hrow
  · obtain ⟨o, ho, hrow⟩ := List.mem_filterMap.mp hheld
    exact hos held (Output.eq_of_heldRow? hrow ▸ ho)

theorem of_quiet (h : m.Dates ts) {os : List Output} (houtputs : m'.outputs = m.outputs ++ os)
    (hos : ∀ o ∈ os, o.Quiet) : m'.Dates ts :=
  h.of_append houtputs fun _ ho => (hos _ ho).elim

/-- The rows that are written as a transaction is closed are dated by the acquisitions that are in
    force. -/
theorem closeTxn {r : Roster} {time : UInt64} (h : m.Dates (r.closed time)) (hready : m.Ready)
    (hvouched : m.Vouched r time) (key : Nat) (side : Side) (ctx : Int64) :
    (m.closeTxn key side ctx time false).2.Dates (r.closed time) := by
  have houtputs := m.outputs_closeTxn key side ctx time false
  refine h.of_append houtputs ?_
  intro held hheld
  obtain ⟨top, below, hsuffix, htxn, t, ht, hrow⟩ :=
    LockStore.exists_of_held_mem_unwindOutputs hheld
  obtain ⟨hid, lock, hget, hsub, htaken⟩ := hrow
  obtain ⟨p, hp, hstart⟩ := Option.map_eq_some_iff.mp htaken
  obtain ⟨lock', hget', hvouches⟩ := hvouched.vouches ctx t (hsuffix.subset ht)
  cases hget.symm.trans hget'
  have htop : t.start ≤ top.start := by
    have hordered := (hvouched.ordered ctx).sublist (hsuffix.sublist.map Txn.start)
    rcases List.mem_cons.mp ht with rfl | ht
    · exact UInt64.le_refl _
    · exact (List.pairwise_cons.mp hordered).1 t.start (List.mem_map_of_mem ht)
  refine ⟨top.row time, ?_, hid.symm, lock.address, t.side,
    place?_of_append houtputs (hready.numbered.place?_eq hget hsub), ?_⟩
  · rw [txnTable_of_append houtputs]
    exact List.mem_append_right _ (List.mem_filterMap.mpr ⟨_, htxn, rfl⟩)
  · rw [← hstart]
    exact hvouches.datedBy htop hp

/-- At the end of a trace all transactions are closed, and no acquisition ends. -/
theorem closeAll {r : Roster} {time : UInt64} (h : m.Dates (r.closed time)) (hready : m.Ready)
    (hvouched : m.Vouched r time) : (m.closeAll time).Dates (r.closed time) := by
  have hall : (m.closeAll time).Ready ∧ (m.closeAll time).Vouched r time ∧
      (m.closeAll time).Dates (r.closed time) := by
    apply closeAll_induction
      (P := fun m => m.Ready ∧ m.Vouched r time ∧ m.Dates (r.closed time))
    · rintro m count ctx ⟨hready, hvouched, hdates⟩
      have hplain : ∀ o ∈ [Output.remark (.stillActive count ctx)], o.Plain :=
        List.forall_mem_singleton.mpr trivial
      have hremarked : (m.withOutputs [.remark (.stillActive count ctx)]).Dates (r.closed time) :=
        hdates.of_quiet (m.outputs_withOutputs _) fun o ho => (hplain o ho).quiet
      exact ⟨hready.withOutputs hplain, ⟨hvouched.ordered, hvouched.started, hvouched.vouches⟩,
        hremarked⟩
    · rintro m ctx top below ⟨hready, hvouched, hdates⟩ _
      exact ⟨hready.closeTxn top.lock top.side ctx time false,
        hvouched.closeTxn top.lock top.side ctx,
        hdates.closeTxn hready hvouched top.lock top.side ctx⟩
    · exact ⟨hready, hvouched, h⟩
  exact hall.2.2

end Dates

/-- The stacks and the positions tell the acquisitions of a roster, and the rows are dated by
    them. -/
structure Remembers (m : Monitor) (r : Roster) (now : UInt64) : Prop where
  recalls : m.Recalls r now
  dates : m.Dates (r.closed now)

theorem Remembers.initial (skipEmpty : Bool) (now : UInt64) :
    (Monitor.initial skipEmpty).Remembers .start now where
  recalls := .initial skipEmpty
  dates held hheld := by cases hheld

theorem Remembers.later {m : Monitor} {r : Roster} {now now' : UInt64} (h : m.Remembers r now)
    (hnow : now ≤ now') : m.Remembers r now' :=
  ⟨h.recalls.later hnow, h.dates.mono (r.outlasted_later hnow)⟩

theorem keptBeside_remembers (time : UInt64) : KeptBeside time fun m r => m.Remembers r time where
  plain {m r os} h hplain := ⟨h.recalls.withOutputs os,
    h.dates.of_quiet (m.outputs_withOutputs os) fun o ho => (hplain o ho).quiet⟩
  access {m r} ctx row h := by
    refine ⟨h.recalls.access ctx row, h.dates.of_append ((m.countAccess ctx).outputs_write _) ?_⟩
    intro held hheld
    cases List.mem_singleton.mp hheld
  setFlags {m r} key flags h := ⟨h.recalls.setFlags key flags,
    h.dates.of_quiet (List.append_nil _).symm (by simp)⟩
  withLock address label kind flags placement hmirrors hnew h :=
    ⟨h.recalls.withLock hmirrors hnew label kind flags placement,
      h.dates.of_quiet (outputs_withLock ..) fun _ ho => quiet_of_mem_lockRows ho⟩
  freeRange hmirrors hfree h := ⟨h.recalls.freeRange hmirrors time hfree,
    h.dates.of_quiet (outputs_freeRange ..) fun _ ho => quiet_of_mem_reports _ ho⟩
  beginHold {m r strip l key lock t} hmirrors hget htime h := by
    have hdates : (m.beginHold key t).Dates (r.closed time) :=
      h.dates.of_quiet (List.append_nil _).symm (by simp)
    exact ⟨h.recalls.beginHold hmirrors.faithful.ready.keyed hget htime,
      hdates.mono (r.outlasted_arrive _ time)⟩
  release {m r strip l key lock t} hmirrors hget hhold htime h := by
    have hclosed := h.dates.closeTxn hmirrors.faithful.ready (h.recalls.vouched hmirrors) key
      t.op.side t.ctx
    have hdates : (m.release key lock t).Dates (r.closed time) := by
      rw [hmirrors.release_eq hget hhold, htime]
      exact (hclosed.of_quiet (List.append_nil _).symm (by simp))
    refine ⟨h.recalls.release hmirrors hget hhold htime, ?_⟩
    rw [htime]
    exact hdates.mono (r.outlasted_leave _ time)

end Monitor

namespace Session

namespace Follows

variable {strip : Site → Site} {s : Session} {l : Ledger} {r : Roster}

theorem remembers_run (h : s.Follows strip l) (hremembers : s.monitor.Remembers r s.lastTime)
    {es : List Event} (hlegal : l.Legal es) (hes : es.Pairwise fun e e' => e.time ≤ e'.time)
    (hlater : ∀ e ∈ es, s.lastTime ≤ e.time) :
    ∃ s', s.run es = (s', none) ∧ s'.Follows strip (es.foldl Ledger.advance l) ∧
      s'.monitor.Remembers (es.foldl Roster.advance r) s'.lastTime := by
  induction es generalizing s l r with
  | nil => exact ⟨s, rfl, h, hremembers⟩
  | cons e es ih =>
    obtain ⟨hallows, hrest⟩ := hlegal
    obtain ⟨hfirst, hes'⟩ := List.pairwise_cons.mp hes
    have hle := hlater e List.mem_cons_self
    have hnext := h.keeps_step (Monitor.keptBeside_remembers e.time) (hremembers.later hle) hallows
    have htime : (s.step e).1.lastTime = e.time := (s.lastTime_step e).trans (if_pos hle)
    obtain ⟨s₁, hstep, hfollows⟩ := h.step hallows
    rw [hstep] at hnext htime
    rw [← htime] at hnext hfirst
    obtain ⟨s', hrun, hend⟩ := ih hfollows hnext hrest hes' hfirst
    exact ⟨s', (run_cons hstep es).trans hrun, hend⟩

theorem dates_finish (h : s.Follows strip l) (hremembers : s.monitor.Remembers r s.lastTime) :
    s.finish.monitor.Dates (r.closed s.lastTime) := by
  have hmirrors := (h.flush none).mirrors
  have hflush := keeps_flush (Monitor.keptBeside_remembers s.lastTime) hremembers none
  obtain ⟨os, os', hos, hos', heq⟩ := s.finish_eq
  have hwritten := (Monitor.keptBeside_remembers s.lastTime).plain hflush hos
  have hdates := hwritten.dates.closeAll (hmirrors.faithful.ready.withOutputs hos)
    (hwritten.recalls.vouched (hmirrors.withOutputs hos))
  rw [heq, lastTime_flush]
  exact hdates.of_quiet (Monitor.outputs_withOutputs _ os') fun o ho => (hos' o ho).quiet

end Follows

/-- In a legal trace whose times never decrease every row on a held sub-lock belongs to one row on
    a transaction. The sub-lock is held from the start of the transaction to its end, and the row
    has the time of an acquisition of it. That is by the start of the transaction, unless the
    sub-lock is acquired again since then and this acquisition outlasts the transaction; and then
    it is by the time of this acquisition. -/
theorem held_dated_of_legal (config : Config) (symbols : SymbolTable) {es : List Event}
    (hlegal : (Ledger.start config).Legal es)
    (hes : es.Pairwise fun e e' => e.time ≤ e'.time) :
    ∃ s, (Session.initial config symbols).run es = (s, none) ∧
      ∀ held ∈ s.finish.monitor.heldTable,
        ∃ row ∈ s.finish.monitor.txnTable, row.id = held.txn ∧
          (∀ row' ∈ s.finish.monitor.txnTable, row'.id = held.txn → row' = row) ∧
          ∃ address side, s.finish.monitor.place? held.lock = some (address, side) ∧
            row.DatedBy (Roster.tenures es) address side held.taken.start := by
  obtain ⟨s, hrun, hfollows, hremembers⟩ :=
    (Follows.initial config symbols).remembers_run (.initial config.skipEmpty 0) hlegal hes
      fun _ _ => UInt64.zero_le
  have htime : s.lastTime = Roster.latest es := lastTime_run hrun
  have hdates := hfollows.dates_finish hremembers
  rw [htime] at hdates
  have hnodup := hfollows.finish.ready.conserved.nodup_txnTable
  refine ⟨s, hrun, ?_⟩
  intro held hheld
  obtain ⟨row, hrow, hid, address, side, hplace, hdated⟩ := hdates held hheld
  refine ⟨row, hrow, hid, ?_, address, side, hplace, hdated⟩
  intro row' hrow' hid'
  exact List.inj_on_of_nodup_map hnodup hrow' hrow (hid'.trans hid.symm)

/-- Two contexts read under one lock, and the first one leaves first. -/
def swappedStarts : List Event :=
  [⟨1, 1, .acquire .reader .none 0, 0x100, "rwlock_t", Site.unknown, 0⟩,
    ⟨2, 2, .acquire .reader .none 0, 0x100, "rwlock_t", Site.unknown, 0⟩,
    ⟨3, 1, .release .reader 0, 0x100, "rwlock_t", Site.unknown, 0⟩,
    ⟨4, 2, .release .reader 0, 0x100, "rwlock_t", Site.unknown, 0⟩]

/-- The row of the first context has the start of the second one, and the other way round. -/
theorem held_dated_of_swappedStarts :
    let start := Session.initial { Config.default with skipEmpty := false } ∅
    Roster.tenures swappedStarts =
        [⟨⟨1, 0x100, .reader⟩, 1, 3⟩, ⟨⟨2, 0x100, .reader⟩, 2, 4⟩] ∧
      (start.run swappedStarts).1.finish.monitor.txnTable = [⟨1, 1, 3⟩, ⟨2, 2, 4⟩] ∧
      (start.run swappedStarts).1.finish.monitor.heldTable.map
        (fun held => (held.txn, held.taken.start)) = [(1, 2), (2, 1)] ∧
      ∃ s, start.run swappedStarts = (s, none) ∧ ∀ held ∈ s.finish.monitor.heldTable,
        ∃ row ∈ s.finish.monitor.txnTable, row.id = held.txn ∧
          (∀ row' ∈ s.finish.monitor.txnTable, row'.id = held.txn → row' = row) ∧
          ∃ address side, s.finish.monitor.place? held.lock = some (address, side) ∧
            row.DatedBy (Roster.tenures swappedStarts) address side held.taken.start :=
  ⟨by decide +kernel, by decide +kernel, by decide +kernel,
    held_dated_of_legal _ ∅ (by decide +kernel) (by decide +kernel)⟩

/-- A row on a held sub-lock may start after its transaction. -/
theorem not_forall_taken_le_start :
    ¬ ∀ (config : Config) (symbols : SymbolTable) (es : List Event) (s : Session),
      (Ledger.start config).Legal es → (es.Pairwise fun e e' => e.time ≤ e'.time) →
      (Session.initial config symbols).run es = (s, none) →
      ∀ held ∈ s.finish.monitor.heldTable, ∀ row ∈ s.finish.monitor.txnTable,
        row.id = held.txn → held.taken.start ≤ row.start := by
  intro h
  have hstop : ((Session.initial { Config.default with skipEmpty := false } ∅).run
      swappedStarts).2 = none := by decide +kernel
  have hheld : ⟨1, 1, ⟨2, Site.unknown, 0, .none⟩⟩ ∈
      ((Session.initial { Config.default with skipEmpty := false } ∅).run
        swappedStarts).1.finish.monitor.heldTable := by decide +kernel
  have hrow : ⟨1, 1, 3⟩ ∈ ((Session.initial { Config.default with skipEmpty := false } ∅).run
      swappedStarts).1.finish.monitor.txnTable := by decide +kernel
  rcases hrun :
      (Session.initial { Config.default with skipEmpty := false } ∅).run swappedStarts with
    ⟨s, stop⟩
  rw [hrun] at hstop hheld hrow
  obtain rfl : stop = none := hstop
  have hle := h { Config.default with skipEmpty := false } ∅ swappedStarts s (by decide +kernel)
    (by decide +kernel) hrun _ hheld _ hrow rfl
  exact absurd hle (by decide)

end Session

end LockTrace
