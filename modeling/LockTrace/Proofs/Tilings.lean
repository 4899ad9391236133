import LockTrace.Proofs.RosterSteps
import LockTrace.Proofs.Tracks
import Mathlib.Data.List.Perm.Basic

/-!
# Rows tile every acquisition

A monitor is tiled by a roster if its rows on transactions are those of the tracks of all
acquisitions (`Monitor.Tiled`). An acquisition begins a track, and a release ends the one that the
roster says it ends. A session that follows a legal trace keeps its monitor tiled
(`Session.Follows.tiled_run`), and at the end, when all transactions are closed at the largest time
of the trace, no track is left (`txns_tile_of_legal`).
-/

namespace LockTrace

namespace Monitor

/-! ### Tiled monitors -/

/-- The rows lead from the start of an acquisition to its end, and each names its sub-lock. -/
structure Tiles (m : Monitor) (t : Tenure) (rows : List TxnRow) : Prop where
  nonempty : rows ≠ []
  span : TxnRow.Span t.start t.stop rows
  names : ∀ row ∈ rows, m.Names row t.hold

theorem Tiles.of_append {m m' : Monitor} {t : Tenure} {rows : List TxnRow} (h : m.Tiles t rows)
    {os : List Output} (houtputs : m'.outputs = m.outputs ++ os) : m'.Tiles t rows where
  nonempty := h.nonempty
  span := h.span
  names row hrow := (h.names row hrow).of_append houtputs

/-- The open transactions continue the tracks `ks`, and all rows are those of the tracks and of
    the acquisitions that have ended. -/
structure Tiling (m : Monitor) (ks : List Track) (chains : List (List TxnRow))
    (past : List Tenure) : Prop where
  full : m.skipEmpty = false
  continued : ∀ ctx, List.Forall₂ m.locks.Continues (m.stack ctx) (Track.within ctx ks)
  names : ∀ k ∈ ks, ∀ row ∈ k.rows, m.Names row k.stay.hold
  tiles : List.Forall₂ m.Tiles past chains
  table : m.txnTable.Perm (chains.flatten ++ ks.flatMap Track.rows)

def Tiled (m : Monitor) (r : Roster) : Prop :=
  ∃ ks chains, ks.map Track.stay = r.present ∧ m.Tiling ks chains r.past

theorem Tiled.initial : (Monitor.initial false).Tiled .start :=
  ⟨[], [], rfl, rfl, fun _ => .nil, by simp, .nil, .refl _⟩

section Tiled

variable {m m' : Monitor} {r : Roster}

theorem Tiling.of_continued {ks : List Track} {chains : List (List TxnRow)} {past : List Tenure}
    (h : m.Tiling ks chains past) (hfull : m'.skipEmpty = m.skipEmpty)
    (hcontinued : ∀ ctx, List.Forall₂ m'.locks.Continues (m'.stack ctx) (Track.within ctx ks))
    {os : List Output} (houtputs : m'.outputs = m.outputs ++ os)
    (hos : ∀ o ∈ os, o.txnRow? = none) : m'.Tiling ks chains past where
  full := hfull.trans h.full
  continued := hcontinued
  names k hk row hrow := (h.names k hk row hrow).of_append houtputs
  tiles := h.tiles.imp fun _ _ htiles => htiles.of_append houtputs
  table := by
    rw [txnTable_of_append houtputs, List.filterMap_eq_nil_iff.mpr hos, List.append_nil]
    exact h.table

/-- The stacks stay, and where their transactions are anchored. -/
theorem Tiled.keep (h : m.Tiled r) (hfull : m'.skipEmpty = m.skipEmpty)
    (hstack : ∀ ctx, m'.stack ctx = m.stack ctx)
    (hanchor : ∀ t ∈ m.openTxns, m'.locks.anchor? t = m.locks.anchor? t) {os : List Output}
    (houtputs : m'.outputs = m.outputs ++ os) (hquiet : ∀ o ∈ os, o.Quiet) : m'.Tiled r := by
  obtain ⟨ks, chains, hpresent, htiling⟩ := h
  refine ⟨ks, chains, hpresent, htiling.of_continued hfull ?_ houtputs
    fun o ho => (hquiet o ho).txnRow?_eq_none⟩
  intro ctx
  have hsame : ∀ t ∈ m.stack ctx, m'.locks.anchor? t = m.locks.anchor? t :=
    fun t ht => hanchor t (mem_openTxns_iff.mpr ⟨ctx, ht⟩)
  rw [hstack]
  apply ((List.forall₂_and_left _ _).mpr ⟨hsame, htiling.continued ctx⟩).imp
  rintro t k ⟨hat, hcontinues⟩
  exact ⟨hat.trans hcontinues.anchor, hcontinues.span⟩

theorem Tiled.modifyLock (h : m.Tiled r) (key : Nat) {f : Lock → Lock}
    (hf : ∀ lock : Lock, lock.Same (f lock)) : (m.modifyLock key f).Tiled r := by
  refine h.keep rfl (fun _ => rfl) ?_ (List.append_nil _).symm (by simp)
  intro t _
  exact m.locks.anchor?_modify key hf t

theorem Tiled.withOutputs (h : m.Tiled r) {os : List Output} (hquiet : ∀ o ∈ os, o.Quiet) :
    (m.withOutputs os).Tiled r :=
  h.keep rfl (fun _ => rfl) (fun _ _ => rfl) (m.outputs_withOutputs os) hquiet

theorem Tiled.access (h : m.Tiled r) (ctx : Int64) (row : AccessRow) :
    ((m.countAccess ctx).write (.access row)).Tiled r := by
  obtain ⟨ks, chains, hpresent, htiling⟩ := h
  refine ⟨ks, chains, hpresent, htiling.of_continued rfl ?_ (outputs_write _ _) ?_⟩
  · intro c
    have hstacks := htiling.continued c
    rw [stack_access]
    split
    · next hctx =>
      subst hctx
      cases hs : m.stack ctx with
      | nil => rwa [hs] at hstacks
      | cons top below =>
        rw [hs] at hstacks
        obtain ⟨k, rest, hcontinues, hbelow, hks⟩ := List.forall₂_cons_left_iff.mp hstacks
        rw [hks]
        exact .cons ⟨hcontinues.anchor, hcontinues.span⟩ hbelow
    · exact hstacks
  · exact List.forall_mem_singleton.mpr rfl

theorem Tiled.openTxn (h : m.Tiled r) {key : Nat} {lock : Lock}
    (hget : m.locks.get? key = some lock) (side : Side) (ctx : Int64) (time : UInt64) :
    (m.openTxn key side ctx time).Tiled (r.arrive ⟨⟨ctx, lock.address, side⟩, time⟩) := by
  obtain ⟨ks, chains, hpresent, htiling⟩ := h
  refine ⟨⟨⟨⟨ctx, lock.address, side⟩, time⟩, []⟩ :: ks, chains, ?_, ?_⟩
  · rw [List.map_cons, hpresent]
    rfl
  · constructor
    · exact htiling.full
    · intro c
      have hstacks := htiling.continued c
      rw [stack_openTxn, Track.within_cons]
      by_cases hctx : ctx = c
      · rw [if_pos hctx, if_pos hctx]
        rw [← hctx] at hstacks ⊢
        exact .cons ⟨LockStore.anchor?_of_get? hget, rfl⟩ hstacks
      · rw [if_neg hctx, if_neg hctx]
        exact hstacks
    · intro k hk row hrow
      rcases List.mem_cons.mp hk with rfl | hk
      · cases hrow
      · exact htiling.names k hk row hrow
    · have houtputs : (m.openTxn key side ctx time).outputs = m.outputs ++ [] :=
        (List.append_nil _).symm
      exact htiling.tiles.imp fun _ _ htiles => htiles.of_append houtputs
    · exact htiling.table

/-- The latest acquisition of the context and the sub-lock ends as its transaction is closed. -/
theorem Tiled.closeTxn (h : m.Tiled r) (hready : m.Ready) (hbacked : m.Backed) {key : Nat}
    {lock : Lock} (hget : m.locks.get? key = some lock) {side : Side} {ctx : Int64}
    (hanchor : (m.stack ctx).HasAnchor key side) (time : UInt64) :
    (m.closeTxn key side ctx time false).2.Tiled (r.leave ⟨ctx, lock.address, side⟩ time) := by
  obtain ⟨ks, chains, hpresent, htiling⟩ := h
  have houtputs := m.outputs_closeTxn key side ctx time false
  have hkey : ∀ t ∈ m.stack ctx, ∀ hold : Hold, hold.ctx = ctx →
      m.locks.anchor? t = some (hold.address, hold.side) →
      (t.AnchoredAt key side ↔ hold = ⟨ctx, lock.address, side⟩) := by
    rintro t - hold rfl hat
    exact hready.keyed.anchoredAt_iff hget hold hat
  obtain ⟨stay, chain, left, hhold, hreleased⟩ := exists_released
    ⟨ctx, lock.address, side⟩ time m.txnIds.next (htiling.continued ctx) hkey hanchor
    (fun t ht hold hat => hready.names_closed hbacked htiling.full time ht hat)
    (fun k hk row hrow => (htiling.names k hk row hrow).of_append houtputs)
  obtain ⟨later, earlier, hks, hleft, hlater⟩ := hreleased.split
  have hroster : r.leave ⟨ctx, lock.address, side⟩ time =
      ⟨later ++ earlier, r.past ++ [stay.upTo time]⟩ := by
    obtain ⟨present, past⟩ := r
    obtain rfl := hks.symm.trans hpresent
    rw [← hhold]
    exact Roster.leave_of_split hlater time
  have hctx : stay.hold.ctx = ctx := by rw [hhold]
  rw [hroster]
  refine ⟨left, chains ++ [chain], hleft, ?_⟩
  constructor
  · rw [skipEmpty_closeTxn]
    exact htiling.full
  · intro c
    rw [locks_closeTxn, stack_closeTxn]
    split
    · next hc =>
      have hstack := hreleased.stack
      rw [hctx] at hstack
      subst hc
      exact hstack
    · next hc =>
      rw [hreleased.others c fun heq => hc (hctx.symm.trans heq.symm)]
      exact htiling.continued c
  · exact hreleased.tells_left
  · apply List.rel_append
    · exact htiling.tiles.imp fun _ _ htiles => htiles.of_append houtputs
    · exact .cons ⟨hreleased.nonempty, hreleased.span, hreleased.tells_chain⟩ .nil
  · rw [txnTable_closeTxn htiling.full]
    have hold := List.perm_iff_count.mp htiling.table
    have hnew := List.perm_iff_count.mp hreleased.table
    rw [List.perm_iff_count]
    intro row
    have hold' := hold row
    have hnew' := hnew row
    simp only [List.count_append, List.flatten_append, List.flatten_singleton] at hold' hnew' ⊢
    omega

/-! ### Legal operations -/

theorem Tiled.beginHold (h : m.Tiled r) {key : Nat} {lock : Lock}
    (hget : m.locks.get? key = some lock) (t : Transition) :
    (m.beginHold key t).Tiled (r.arrive ⟨⟨t.ctx, lock.address, t.op.side⟩, t.time⟩) := by
  have hlive : (m.modifyLock key (·.beginHold t.position)).locks.get? key =
      some (lock.beginHold t.position) := LockStore.get?_modify_self _ hget
  have hopen := (h.modifyLock key fun lock => lock.same_beginHold t.position).openTxn hlive
    t.op.side t.ctx t.time
  rwa [(lock.same_beginHold t.position).address] at hopen

section Mirrored

variable {strip : Site → Site} {l : Ledger}

theorem Tiled.release (h : m.Tiled r) (hmirrors : m.Mirrors strip l) {key : Nat} {lock : Lock}
    {t : Transition} (hget : m.locks.get? key = some lock)
    (hhold : ⟨t.ctx, lock.address, t.op.side⟩ ∈ l.holds) :
    (m.release key lock t).Tiled (r.leave ⟨t.ctx, lock.address, t.op.side⟩ t.time) := by
  have hclosed := h.closeTxn hmirrors.faithful.ready hmirrors.backed hget
    (hmirrors.hasAnchor hget hhold) t.time
  rw [hmirrors.release_eq hget hhold]
  exact (hclosed.modifyLock key fun l => l.same_popPosition).modifyLock key
    fun l => l.same_endHold t.op.side

theorem Tiled.withLock (h : m.Tiled r) (hmirrors : m.Mirrors strip l) (address : UInt64)
    (label : String) (kind : LockKind) (flags : UInt32) (placement : Placement) :
    (m.withLock address label kind flags placement).Tiled r := by
  refine h.keep rfl (fun _ => rfl) ?_ (m.outputs_withLock ..) ?_
  · exact fun t ht => hmirrors.anchor?_withLock address label kind flags placement ht
  · exact fun o ho => quiet_of_mem_lockRows ho

theorem Tiled.freeRange (h : m.Tiled r) (hmirrors : m.Mirrors strip l) {base size : UInt64}
    (time : UInt64) (hfree : ∀ hold ∈ l.holds, ¬ LockStore.InRange base size hold.address) :
    (m.freeRange base size time).2.Tiled r := by
  refine h.keep rfl (fun _ => rfl) ?_ (m.outputs_freeRange base size time) ?_
  · exact fun t ht => hmirrors.anchor?_freeRange time hfree ht
  · exact fun o ho => quiet_of_mem_reports _ ho

end Mirrored

theorem keptBeside_tiled (time : UInt64) : KeptBeside time Tiled where
  plain h hplain := h.withOutputs fun o ho => (hplain o ho).quiet
  access ctx row h := h.access ctx row
  setFlags key flags h := h.modifyLock key fun lock => lock.same_setFlags flags
  withLock address label kind flags placement hmirrors _ h :=
    h.withLock hmirrors address label kind flags placement
  freeRange hmirrors hfree h := h.freeRange hmirrors time hfree
  beginHold _ hget _ h := h.beginHold hget _
  release hmirrors hget hhold _ h := h.release hmirrors hget hhold

/-! ### The end of a trace -/

/-- All acquisitions that are left end as their transactions are closed. -/
theorem Tiled.closeAll (h : m.Tiled r) (hready : m.Ready) (hbacked : m.Backed) (time : UInt64) :
    ∃ r', (m.closeAll time).Tiled r' ∧ (r'.closed time).Perm (r.closed time) := by
  have hall : (m.closeAll time).Ready ∧ (m.closeAll time).Backed ∧
      ∃ r', (m.closeAll time).Tiled r' ∧ (r'.closed time).Perm (r.closed time) := by
    apply closeAll_induction
      (P := fun m => m.Ready ∧ m.Backed ∧ ∃ r', m.Tiled r' ∧ (r'.closed time).Perm (r.closed time))
    · rintro m count ctx ⟨hready, hbacked, r', htiled, hperm⟩
      have hplain : ∀ o ∈ [Output.remark (.stillActive count ctx)], o.Plain :=
        List.forall_mem_singleton.mpr trivial
      exact ⟨hready.withOutputs hplain, hbacked, r',
        htiled.withOutputs fun o ho => (hplain o ho).quiet, hperm⟩
    · rintro m ctx top below ⟨hready, hbacked, r', htiled, hperm⟩ hstack
      have hmem : top ∈ m.stack ctx := by
        rw [hstack]
        exact List.mem_cons_self
      obtain ⟨lock, _, hget, _⟩ := hbacked top (mem_openTxns_iff.mpr ⟨ctx, hmem⟩)
      exact ⟨hready.closeTxn top.lock top.side ctx time false,
        hbacked.closeTxn top.lock top.side ctx time, _,
        htiled.closeTxn hready hbacked hget ⟨top, hmem, top.anchoredAt_self⟩ time,
        (r'.closed_leave_perm _ time).trans hperm⟩
    · exact ⟨hready, hbacked, r, h, .refl _⟩
  exact hall.2.2

/-- With no transaction open, all acquisitions have ended. -/
theorem Tiled.exists_chains (h : m.Tiled r) (hopen : ∀ ctx, m.stack ctx = []) :
    r.present = [] ∧ ∃ chains, List.Forall₂ m.Tiles r.past chains ∧
      m.txnTable.Perm chains.flatten := by
  obtain ⟨ks, chains, hpresent, htiling⟩ := h
  have hnone : ks = [] := by
    apply List.eq_nil_iff_forall_not_mem.mpr
    intro k hk
    have hstack := htiling.continued k.stay.hold.ctx
    rw [hopen, List.forall₂_nil_left_iff] at hstack
    have hmem : k ∈ Track.within k.stay.hold.ctx ks :=
      List.mem_filter.mpr ⟨hk, decide_eq_true rfl⟩
    rw [hstack] at hmem
    cases hmem
  have htable := htiling.table
  rw [hnone] at hpresent htable
  rw [List.flatMap_nil, List.append_nil] at htable
  exact ⟨hpresent.symm, chains, htiling.tiles, htable⟩

end Tiled

end Monitor

namespace Session

namespace Follows

open Monitor

variable {strip : Site → Site} {s : Session} {l : Ledger} {r : Roster}

theorem tiled_run (h : s.Follows strip l) (htiled : s.monitor.Tiled r) {es : List Event}
    (hlegal : l.Legal es) :
    ∃ s', s.run es = (s', none) ∧ s'.Follows strip (es.foldl Ledger.advance l) ∧
      s'.monitor.Tiled (es.foldl Roster.advance r) ∧
      s'.lastTime = es.foldl (fun time e => max time e.time) s.lastTime := by
  induction es generalizing s l r with
  | nil => exact ⟨s, rfl, h, htiled, rfl⟩
  | cons e es ih =>
    obtain ⟨hallows, hrest⟩ := hlegal
    have hnext := h.keeps_step (keptBeside_tiled e.time) htiled hallows
    obtain ⟨s₁, hstep, hfollows⟩ := h.step hallows
    rw [hstep] at hnext
    obtain ⟨s', hrun, hfollows', htiled', _⟩ := ih hfollows hnext hrest
    have hwhole := (run_cons hstep es).trans hrun
    exact ⟨s', hwhole, hfollows', htiled', lastTime_run hwhole⟩

/-- When the trace is over, the acquisitions that are left end with its last time. -/
theorem tiled_finish (h : s.Follows strip l) (htiled : s.monitor.Tiled r) :
    ∃ r', s.finish.monitor.Tiled r' ∧ (r'.closed s.lastTime).Perm (r.closed s.lastTime) := by
  have hmirrors := (h.flush none).mirrors
  obtain ⟨os, os', hos, hos', heq⟩ := s.finish_eq
  obtain ⟨r', htiled', hperm⟩ :=
    ((keeps_flush (keptBeside_tiled s.lastTime) htiled none).withOutputs
      fun o ho => (hos o ho).quiet).closeAll
      (hmirrors.faithful.ready.withOutputs hos) hmirrors.backed (s.flush none).lastTime
  rw [heq]
  rw [lastTime_flush] at hperm
  exact ⟨r', htiled'.withOutputs fun o ho => (hos' o ho).quiet, hperm⟩

end Follows

/-- If nothing is suppressed, the rows on transactions of a legal trace fall into one chain for each
    acquisition. The chain is not empty, leads without a gap from the time of the acquisition to
    that of its release, or to the largest time of the trace if it is never released, and each of
    its rows names the sub-lock. -/
theorem txns_tile_of_legal (config : Config) (symbols : SymbolTable) {es : List Event}
    (hfull : config.skipEmpty = false) (hlegal : (Ledger.start config).Legal es) :
    ((Roster.tenures es).map Tenure.stay).Perm (es.filterMap Event.acquisition?) ∧
    ∃ s, (Session.initial config symbols).run es = (s, none) ∧
      ∃ chains, List.Forall₂ s.finish.monitor.Tiles (Roster.tenures es) chains ∧
        s.finish.monitor.txnTable.Perm chains.flatten := by
  have hinitial : (Session.initial config symbols).monitor.Tiled .start := by
    have htiled := Monitor.Tiled.initial
    rwa [← hfull] at htiled
  obtain ⟨s, hrun, hfollows, htiled, htime⟩ :=
    (Follows.initial config symbols).tiled_run hinitial hlegal
  obtain ⟨r', htiled', hperm⟩ := hfollows.tiled_finish htiled
  obtain ⟨hpresent, chains, htiles, htable⟩ := htiled'.exists_chains (Monitor.stack_closeAll _ _)
  have hpast : (Roster.tenures es).Perm r'.past := by
    rw [htime] at hperm
    unfold Roster.closed at hperm
    rw [hpresent, List.map_nil, List.append_nil] at hperm
    exact hperm.symm
  obtain ⟨chains', htiles', hchains⟩ := List.perm_comp_forall₂ hpast htiles
  exact ⟨Roster.tenures_perm es, s, hrun, chains', htiles', htable.trans hchains.symm.flatten⟩

/-- A context takes a shared lock twice and another one between, and releases the other one first.
    The latest hold of the shared lock is cut there, and the first one is never released. -/
def nestedHolds : List Event :=
  [⟨1, 1, .acquire .reader .none 0, 0x100, "rwlock_t", Site.unknown, 0⟩,
    ⟨2, 1, .acquire .writer .none 0, 0x200, "spinlock_t", Site.unknown, 0⟩,
    ⟨3, 1, .acquire .reader .none 0, 0x100, "rwlock_t", Site.unknown, 0⟩,
    ⟨4, 2, .acquire .reader .none 0, 0x100, "rwlock_t", Site.unknown, 0⟩,
    ⟨5, 1, .release .writer 0, 0x200, "spinlock_t", Site.unknown, 0⟩,
    ⟨6, 1, .release .reader 0, 0x100, "rwlock_t", Site.unknown, 0⟩,
    ⟨9, 2, .access .read 4, 0x300, "", Site.unknown, 0⟩]

theorem txns_tile_of_nestedHolds :
    Roster.tenures nestedHolds =
        [⟨⟨1, 0x200, .writer⟩, 2, 5⟩, ⟨⟨1, 0x100, .reader⟩, 3, 6⟩, ⟨⟨2, 0x100, .reader⟩, 4, 9⟩,
          ⟨⟨1, 0x100, .reader⟩, 1, 9⟩] ∧
      ((Session.initial { Config.default with skipEmpty := false } ∅).run
          nestedHolds).1.finish.monitor.txnTable =
        [⟨3, 3, 5⟩, ⟨2, 2, 5⟩, ⟨5, 5, 6⟩, ⟨1, 1, 9⟩, ⟨4, 4, 9⟩] ∧
      ∃ s, (Session.initial { Config.default with skipEmpty := false } ∅).run nestedHolds =
          (s, none) ∧
        ∃ chains, List.Forall₂ s.finish.monitor.Tiles (Roster.tenures nestedHolds) chains ∧
          s.finish.monitor.txnTable.Perm chains.flatten :=
  ⟨by decide +kernel, by decide +kernel, (txns_tile_of_legal _ ∅ rfl (by decide +kernel)).2⟩

end Session

end LockTrace
