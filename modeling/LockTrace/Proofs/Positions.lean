import LockTrace.Proofs.Intervals
import LockTrace.Proofs.RosterSteps

/-!
# Positions and acquisitions

A lock remembers a position for every acquisition that is not released, and a release makes it
forget the latest one. That need not be the position of the acquisition that the release ends: it
may be that of another context, or of a later hold. So the positions of a lock drift away from the
acquisitions, but in one direction only. Counted from the latest, each position is from no later
than the acquisition with the same number (`Monitor.Recalls.positions`), as a release shifts the
positions by at least as much as the acquisitions (`forall₂_tail_eraseP`).

The transactions of a stack do not drift. They stand for the acquisitions of their context in the
order in which these were made (`TxnStack.Matches`), however releases come.
-/

namespace LockTrace

/-! ### Lists -/

theorem filter_eraseP_of_imp {α : Type} {p q : α → Bool} (h : ∀ a, p a = true → q a = true)
    (as : List α) : (as.eraseP p).filter q = (as.filter q).eraseP p := by
  have hboth : (fun a => p a && q a) = p := by
    funext a
    cases hp : p a with
    | false => rfl
    | true => rw [h a hp, Bool.and_true]
  rw [List.eraseP_filter, hboth]

theorem filter_eraseP_of_not {α : Type} {p q : α → Bool} (h : ∀ a, p a = true → ¬ q a = true)
    (as : List α) : (as.eraseP p).filter q = as.filter q := by
  induction as with
  | nil => rfl
  | cons a as ih =>
    by_cases hp : p a = true
    · rw [List.eraseP_cons_of_pos hp, List.filter_cons_of_neg (h a hp)]
    · rw [List.eraseP_cons_of_neg hp, List.filter_cons, List.filter_cons, ih]

theorem exists_of_mem_of_forall₂ {α β : Type} {R : α → β → Prop} {as : List α} {bs : List β}
    (h : List.Forall₂ R as bs) {a : α} (ha : a ∈ as) : ∃ b ∈ bs, R a b := by
  induction h with
  | nil => cases ha
  | cons hr _ ih =>
    rcases List.mem_cons.mp ha with rfl | ha
    · exact ⟨_, List.mem_cons_self, hr⟩
    · obtain ⟨b, hb, hr'⟩ := ih ha
      exact ⟨b, List.mem_cons_of_mem _ hb, hr'⟩

/-! ### Acquisitions that are not released -/

/-- The acquisition is one of a sub-lock. -/
def Stay.On (s : Stay) (address : UInt64) (side : Side) : Prop :=
  s.hold.address = address ∧ s.hold.side = side

namespace Roster

section Having

variable {β : Type} [DecidableEq β] (f : Hold → β) (b : β)

/-- The acquisitions that are not released and have something in common, such as the context. -/
def having (r : Roster) : List Stay := r.present.filter (fun s => decide (f s.hold = b))

variable (r : Roster)

theorem mem_having {r : Roster} {s : Stay} : s ∈ r.having f b ↔ s ∈ r.present ∧ f s.hold = b := by
  unfold having
  rw [List.mem_filter, decide_eq_true_eq]

theorem having_arrive (s : Stay) :
    (r.arrive s).having f b = if f s.hold = b then s :: r.having f b else r.having f b := by
  unfold having arrive
  simp only [List.filter_cons, decide_eq_true_eq]

theorem present_leave (h : Hold) (time : UInt64) :
    (r.leave h time).present = r.present.eraseP (fun s => decide (s.hold = h)) := by
  unfold leave
  cases hfind : r.present.find? (fun s => decide (s.hold = h)) with
  | none => exact (List.eraseP_of_forall_not (List.find?_eq_none.mp hfind)).symm
  | some s => rfl

theorem having_leave (h : Hold) (time : UInt64) :
    (r.leave h time).having f b =
      if f h = b then (r.having f b).eraseP (fun s => decide (s.hold = h)) else r.having f b := by
  unfold having
  rw [present_leave]
  split
  · next hb =>
    apply filter_eraseP_of_imp
    intro s hs
    rw [of_decide_eq_true hs]
    exact decide_eq_true hb
  · next hb =>
    apply filter_eraseP_of_not
    intro s hs
    rw [of_decide_eq_true hs]
    simpa using hb

end Having

end Roster

/-! ### Transactions in the place of acquisitions -/

/-- The transaction is anchored where the acquisition is, and did not start before it. -/
structure LockStore.StandsFor (locks : LockStore) (t : Txn) (s : Stay) : Prop where
  anchor : locks.anchor? t = some (s.hold.address, s.hold.side)
  since_le : s.since ≤ t.start

theorem LockStore.StandsFor.reopened {locks : LockStore} {t : Txn} {s : Stay}
    (h : locks.StandsFor t s) (id : Nat) {time : UInt64} (htime : t.start ≤ time) :
    locks.StandsFor (t.reopened id time) s :=
  ⟨h.anchor, UInt64.le_trans h.since_le htime⟩

/-- The transactions of a stack stand for the given acquisitions one by one. They started one after
    the other and by now. -/
structure TxnStack.Matches (s : TxnStack) (locks : LockStore) (us : List Stay) (now : UInt64) :
    Prop where
  ordered : s.Ordered
  started : ∀ t ∈ s, t.start ≤ now
  paired : List.Forall₂ locks.StandsFor s us

namespace TxnStack.Matches

variable {s : TxnStack} {locks locks' : LockStore} {us : List Stay} {now : UInt64}

theorem nil : Matches [] locks [] now := ⟨.nil, by simp, .nil⟩

theorem later (h : s.Matches locks us now) {now' : UInt64} (hnow : now ≤ now') :
    s.Matches locks us now' :=
  ⟨h.ordered, fun t ht => UInt64.le_trans (h.started t ht) hnow, h.paired⟩

theorem of_anchors (h : s.Matches locks us now)
    (hanchor : ∀ t ∈ s, locks'.anchor? t = locks.anchor? t) : s.Matches locks' us now where
  ordered := h.ordered
  started := h.started
  paired := ((List.forall₂_and_left _ _).mpr ⟨hanchor, h.paired⟩).imp
    fun _ _ ⟨hat, hstands⟩ => ⟨hat.trans hstands.anchor, hstands.since_le⟩

theorem addAccesses (h : s.Matches locks us now) (n : Nat) :
    (s.addAccesses n).Matches locks us now := by
  cases s with
  | nil => exact h
  | cons top below =>
    obtain ⟨hstart, hbelow⟩ := List.forall_mem_cons.mp h.started
    obtain ⟨u, rest, hstands, hpaired, rfl⟩ := List.forall₂_cons_left_iff.mp h.paired
    exact ⟨h.ordered, List.forall_mem_cons.mpr ⟨hstart, hbelow⟩,
      .cons ⟨hstands.anchor, hstands.since_le⟩ hpaired⟩

/-- A transaction that starts now stands for an acquisition that is made now. -/
theorem cons (h : s.Matches locks us now) {t : Txn} {u : Stay} (hstart : t.start = now)
    (hstands : locks.StandsFor t u) : Matches (t :: s) locks (u :: us) now where
  ordered := by
    apply List.pairwise_cons.mpr
    refine ⟨?_, h.ordered⟩
    intro start hmem
    obtain ⟨t', ht', rfl⟩ := List.mem_map.mp hmem
    rw [hstart]
    exact h.started t' ht'
  started := List.forall_mem_cons.mpr ⟨hstart ▸ UInt64.le_refl _, h.started⟩
  paired := .cons hstands h.paired

/-- As the innermost transaction of a sub-lock is closed, the latest acquisition that it may stand
    for is gone. -/
theorem unwound (h : s.Matches locks us now) {key : Nat} {side : Side} {gone : Stay → Bool}
    (hgone : ∀ t ∈ s, ∀ u ∈ us, locks.anchor? t = some (u.hold.address, u.hold.side) →
      (t.AnchoredAt key side ↔ gone u = true)) (next : Nat) :
    (s.unwound key side now false next).Matches locks (us.eraseP gone) now where
  ordered := h.ordered.unwound h.started
  started t ht := by
    rcases TxnStack.mem_unwound ht with ht | ⟨_, _, hnew, _⟩
    · exact h.started t ht
    · exact hnew ▸ UInt64.le_refl _
  paired := by
    have hpaired := h.paired
    have hstarted := h.started
    clear h
    induction hpaired generalizing next with
    | nil => exact .nil
    | @cons t u below rest hstands hbelow ih =>
      have hiff := hgone t List.mem_cons_self u List.mem_cons_self hstands.anchor
      rw [TxnStack.unwound]
      by_cases hat : t.AnchoredAt key side
      · rw [if_pos hat, List.eraseP_cons_of_pos (hiff.mp hat)]
        exact hbelow
      · rw [if_neg hat, List.eraseP_cons_of_neg (mt hiff.mpr hat)]
        refine .cons (hstands.reopened next (hstarted t List.mem_cons_self)) (ih ?_ _ ?_)
        · intro t' ht' u' hu'
          exact hgone t' (List.mem_cons_of_mem _ ht') u' (List.mem_cons_of_mem _ hu')
        · exact fun t' ht' => hstarted t' (List.mem_cons_of_mem _ ht')

end TxnStack.Matches

/-! ### Positions that are forgotten -/

/-- The position is from no later than the acquisition. -/
def Position.NotAfter (p : Position) (s : Stay) : Prop := p.start ≤ s.since

/-- If the latest position is forgotten and any of the acquisitions ends, the positions that are
    left are still from no later than the acquisitions that are left. -/
theorem forall₂_tail_eraseP {ps : List Position} {us : List Stay} {q : Stay → Bool}
    (h : List.Forall₂ Position.NotAfter ps us) (hsorted : (us.map Stay.since).Pairwise (· ≥ ·))
    (hq : ∃ u ∈ us, q u = true) : List.Forall₂ Position.NotAfter ps.tail (us.eraseP q) := by
  induction h with
  | nil =>
    obtain ⟨u, hu, _⟩ := hq
    cases hu
  | @cons p u ps us _ hrest ih =>
    obtain ⟨hlater, hsorted'⟩ := List.pairwise_cons.mp hsorted
    by_cases hu : q u = true
    · rw [List.eraseP_cons_of_pos hu]
      exact hrest
    · -- the acquisition stays, and takes over the position of an earlier one
      rw [List.eraseP_cons_of_neg hu]
      have hq' : ∃ v ∈ us, q v = true := by
        obtain ⟨v, hv, hqv⟩ := hq
        rcases List.mem_cons.mp hv with rfl | hv
        · exact absurd hqv hu
        · exact ⟨v, hv, hqv⟩
      have hshifted := ih hsorted' hq'
      cases hrest with
      | nil =>
        obtain ⟨v, hv, _⟩ := hq'
        cases hv
      | @cons p' u' _ _ hp' _ =>
        have hstep : u'.since ≤ u.since := hlater u'.since (List.mem_cons_self)
        exact .cons (UInt64.le_trans hp' hstep) hshifted

/-! ### Monitors that recall a roster -/

/-- The stacks and the positions tell the acquisitions of a roster. -/
structure Monitor.Recalls (m : Monitor) (r : Roster) (now : UInt64) : Prop where
  stacked : ∀ ctx, (m.stack ctx).Matches m.locks (r.having Hold.ctx ctx) now
  sorted : (r.present.map Stay.since).Pairwise (· ≥ ·)
  positions : ∀ key lock, m.locks.get? key = some lock →
    List.Forall₂ Position.NotAfter lock.history (r.having Hold.address lock.address)
  taken : ∀ key lock, m.locks.get? key = some lock → ∀ p ∈ lock.history,
    ∃ s ∈ r.begun, s.On lock.address p.side ∧ s.since = p.start

namespace Monitor.Recalls

variable {m m' : Monitor} {r : Roster} {now : UInt64}

theorem initial (skipEmpty : Bool) : (Monitor.initial skipEmpty).Recalls .start now where
  stacked _ := .nil
  sorted := .nil
  positions key lock hget := by cases hget
  taken key lock hget := by cases hget

theorem later (h : m.Recalls r now) {now' : UInt64} (hnow : now ≤ now') : m.Recalls r now' :=
  ⟨fun ctx => (h.stacked ctx).later hnow, h.sorted, h.positions, h.taken⟩

theorem exists_txn (h : m.Recalls r now) {s : Stay} (hs : s ∈ r.present) :
    ∃ t ∈ m.stack s.hold.ctx, m.locks.StandsFor t s :=
  exists_of_mem_of_forall₂ (h.stacked s.hold.ctx).paired.flip
    ((Roster.mem_having _ _).mpr ⟨hs, rfl⟩)

theorem since_le (h : m.Recalls r now) {s : Stay} (hs : s ∈ r.present) : s.since ≤ now := by
  obtain ⟨t, ht, hstands⟩ := h.exists_txn hs
  exact UInt64.le_trans hstands.since_le ((h.stacked s.hold.ctx).started t ht)

/-- Where a lock is acquired and not released, there is a live lock. -/
theorem exists_lock (h : m.Recalls r now) {s : Stay} (hs : s ∈ r.present) :
    ∃ key lock, m.locks.get? key = some lock ∧ lock.address = s.hold.address := by
  obtain ⟨t, _, hstands⟩ := h.exists_txn hs
  obtain ⟨lock, hget, hp⟩ := LockStore.get?_anchor hstands.anchor
  exact ⟨t.lock, lock, hget, (Prod.mk.inj hp).1.symm⟩

/-- The stacks stay, and so does what lies at the addresses of acquisitions. -/
theorem keep (h : m.Recalls r now) (hstack : ∀ ctx, m'.stack ctx = m.stack ctx)
    (hanchor : ∀ t ∈ m.openTxns, m'.locks.anchor? t = m.locks.anchor? t)
    (hlocks : ∀ key lock', m'.locks.get? key = some lock' →
      (∃ lock, m.locks.get? key = some lock ∧ lock'.address = lock.address ∧
        lock'.history = lock.history) ∨
      (lock'.history = [] ∧ ∀ s ∈ r.present, s.hold.address ≠ lock'.address)) :
    m'.Recalls r now where
  stacked ctx := by
    rw [hstack]
    exact (h.stacked ctx).of_anchors fun t ht => hanchor t (mem_openTxns_iff.mpr ⟨ctx, ht⟩)
  sorted := h.sorted
  positions key lock' hget' := by
    rcases hlocks key lock' hget' with ⟨lock, hget, haddress, hhistory⟩ | ⟨hhistory, hnone⟩
    · rw [haddress, hhistory]
      exact h.positions key lock hget
    · have hempty : r.having Hold.address lock'.address = [] := by
        apply List.eq_nil_iff_forall_not_mem.mpr
        intro s hs
        obtain ⟨hpresent, haddress⟩ := (Roster.mem_having _ _).mp hs
        exact hnone s hpresent haddress
      rw [hhistory, hempty]
      exact .nil
  taken key lock' hget' := by
    rcases hlocks key lock' hget' with ⟨lock, hget, haddress, hhistory⟩ | ⟨hhistory, _⟩
    · rw [haddress, hhistory]
      exact h.taken key lock hget
    · rw [hhistory]
      simp

theorem withOutputs (h : m.Recalls r now) (os : List Output) : (m.withOutputs os).Recalls r now :=
  ⟨h.stacked, h.sorted, h.positions, h.taken⟩

theorem access (h : m.Recalls r now) (ctx : Int64) (row : AccessRow) :
    ((m.countAccess ctx).write (.access row)).Recalls r now where
  stacked c := by
    rw [stack_access]
    split
    · next hctx =>
      rw [hctx]
      exact (h.stacked c).addAccesses 1
    · exact h.stacked c
  sorted := h.sorted
  positions := h.positions
  taken := h.taken

theorem setFlags (h : m.Recalls r now) (key : Nat) (flags : UInt32) :
    (m.modifyLock key (·.setFlags flags)).Recalls r now := by
  refine h.keep (fun _ => rfl) ?_ ?_
  · exact fun t _ => m.locks.anchor?_modify key (fun lock => lock.same_setFlags flags) t
  · intro k lock' hget'
    have hlive := (LockStore.get?_modify m.locks key k (·.setFlags flags)).symm.trans hget'
    split at hlive
    · obtain ⟨lock, hget, rfl⟩ := Option.map_eq_some_iff.mp hlive
      exact Or.inl ⟨lock, hget, rfl, rfl⟩
    · exact Or.inl ⟨lock', hlive, rfl, rfl⟩

section Mirrored

variable {strip : Site → Site} {l : Ledger}

theorem withLock (h : m.Recalls r now) (hmirrors : m.Mirrors strip l) {address : UInt64}
    (hnew : m.locks.find? address = none) (label : String) (kind : LockKind) (flags : UInt32)
    (placement : Placement) : (m.withLock address label kind flags placement).Recalls r now := by
  refine h.keep (fun _ => rfl) ?_ ?_
  · exact fun t ht => hmirrors.anchor?_withLock address label kind flags placement ht
  · intro key lock' hget'
    rw [get?_withLock] at hget'
    split at hget'
    · cases hget'
      refine Or.inr ⟨rfl, ?_⟩
      intro s hs haddress
      obtain ⟨k, lock, hget, hlock⟩ := h.exists_lock hs
      have hfind := (hmirrors.faithful.ready.keyed.find_iff address k).mpr
        ⟨lock, hget, hlock.trans haddress⟩
      cases hnew.symm.trans hfind
    · exact Or.inl ⟨lock', hget', rfl, rfl⟩

theorem freeRange (h : m.Recalls r now) (hmirrors : m.Mirrors strip l) {base size : UInt64}
    (time : UInt64) (hfree : ∀ hold ∈ l.holds, ¬ LockStore.InRange base size hold.address) :
    (m.freeRange base size time).2.Recalls r now := by
  refine h.keep (fun _ => rfl) ?_ ?_
  · exact fun t ht => hmirrors.anchor?_freeRange time hfree ht
  · intro key lock hget
    have hbefore : m.locks.get? key = some lock :=
      @LockStore.get?_of_get?_freeRange m.locks base size time key lock hget
    exact Or.inl ⟨lock, hbefore, rfl, rfl⟩

theorem beginHold (h : m.Recalls r now) (hkeyed : m.locks.Keyed) {key : Nat} {lock : Lock}
    (hget : m.locks.get? key = some lock) {t : Transition} (htime : t.time = now) :
    (m.beginHold key t).Recalls (r.arrive ⟨⟨t.ctx, lock.address, t.op.side⟩, t.time⟩) now := by
  have hanchor : ∀ u, (m.beginHold key t).locks.anchor? u = m.locks.anchor? u :=
    m.locks.anchor?_modify key fun lock => lock.same_beginHold t.position
  have hlive : ∀ k, (m.beginHold key t).locks.get? k =
      if key = k then (m.locks.get? k).map (·.beginHold t.position) else m.locks.get? k :=
    fun k => m.locks.get?_modify key k _
  have hsame : (lock.beginHold t.position).address = lock.address :=
    (lock.same_beginHold t.position).address
  constructor
  · intro c
    have hstack : (m.beginHold key t).stack c =
        if t.ctx = c then .opened m.txnIds.next t.time key t.op.side :: m.stack t.ctx
        else m.stack c := stack_openTxn _ _ _ _ _ _
    rw [hstack, Roster.having_arrive]
    have hbelow : (m.stack c).Matches (m.beginHold key t).locks (r.having Hold.ctx c) now :=
      (h.stacked c).of_anchors fun u _ => hanchor u
    by_cases hctx : t.ctx = c
    · rw [if_pos hctx, if_pos hctx, hctx]
      refine hbelow.cons htime ⟨?_, UInt64.le_refl _⟩
      rw [hanchor]
      exact LockStore.anchor?_of_get? hget
    · rw [if_neg hctx, if_neg hctx]
      exact hbelow
  · refine List.pairwise_cons.mpr ⟨?_, h.sorted⟩
    intro since hsince
    obtain ⟨s, hs, rfl⟩ := List.mem_map.mp hsince
    exact htime ▸ h.since_le hs
  · intro k lock' hget'
    rw [hlive] at hget'
    rw [Roster.having_arrive]
    by_cases hk : key = k
    · rw [if_pos hk, ← hk, hget] at hget'
      cases hget'
      rw [hsame, if_pos rfl, Lock.history_beginHold]
      exact .cons (UInt64.le_refl _) (h.positions key lock hget)
    · rw [if_neg hk] at hget'
      rw [if_neg fun haddress => hk (hkeyed.key_unique hget hget' haddress)]
      exact h.positions k lock' hget'
  · intro k lock' hget' p hp
    have hbegun : ∀ s ∈ r.begun,
        s ∈ (r.arrive ⟨⟨t.ctx, lock.address, t.op.side⟩, t.time⟩).begun := by
      intro s hs
      rcases List.mem_append.mp hs with hs | hs
      · exact List.mem_append_left _ hs
      · exact List.mem_append_right _ (List.mem_cons_of_mem _ hs)
    have hbefore : ∀ lock₀, m.locks.get? k = some lock₀ → lock'.address = lock₀.address →
        p ∈ lock₀.history → ∃ s ∈ (r.arrive ⟨⟨t.ctx, lock.address, t.op.side⟩, t.time⟩).begun,
          s.On lock'.address p.side ∧ s.since = p.start := by
      intro lock₀ hget₀ haddress hp₀
      obtain ⟨s, hs, hon⟩ := h.taken k lock₀ hget₀ p hp₀
      exact ⟨s, hbegun s hs, haddress ▸ hon⟩
    rw [hlive] at hget'
    split at hget'
    · next hk =>
      rw [← hk, hget] at hget'
      cases hget'
      rcases List.mem_cons.mp hp with rfl | hp
      · exact ⟨_, List.mem_append_right _ List.mem_cons_self, ⟨hsame.symm, rfl⟩, rfl⟩
      · exact hbefore lock (hk ▸ hget) hsame hp
    · exact hbefore lock' hget' rfl hp

/-- What is held by the ledger is on the roster. -/
theorem exists_stay (h : m.Recalls r now) (hmirrors : m.Mirrors strip l) {hold : Hold}
    (hhold : hold ∈ l.holds) : ∃ s ∈ r.present, s.hold = hold := by
  obtain ⟨ctx, address, side⟩ := hold
  obtain ⟨key, lock, _, hget, rfl⟩ := hmirrors.exists_lock hhold
  obtain ⟨u, hu, hat⟩ := hmirrors.hasAnchor hget hhold
  obtain ⟨s, hs, hstands⟩ := exists_of_mem_of_forall₂ (h.stacked ctx).paired hu
  obtain ⟨hpresent, rfl⟩ := (Roster.mem_having _ _).mp hs
  exact ⟨s, hpresent,
    (hmirrors.faithful.ready.keyed.anchoredAt_iff hget s.hold hstands.anchor).mp hat⟩

/-- All acquisitions in force of a lock are of the side that is held. -/
theorem side_eq (h : m.Recalls r now) (hmirrors : m.Mirrors strip l) {key : Nat} {lock : Lock}
    {side : Side} (hget : m.locks.get? key = some lock) (hpos : 0 < lock.count side) {s : Stay}
    (hs : s ∈ r.present) (haddress : s.hold.address = lock.address) : s.hold.side = side := by
  obtain ⟨t, ht, hstands⟩ := h.exists_txn hs
  obtain ⟨lock', hget', hp⟩ := LockStore.get?_anchor hstands.anchor
  obtain ⟨hlock, hside⟩ := Prod.mk.inj hp
  have hkey := hmirrors.faithful.ready.keyed.key_unique hget' hget (hlock.symm.trans haddress)
  rw [hside]
  exact hmirrors.side_eq hget hpos (mem_openTxns_iff.mpr ⟨s.hold.ctx, ht⟩) hkey

/-- The latest acquisition of the sub-lock by the context ends, and the latest position of the lock
    is forgotten. -/
theorem release (h : m.Recalls r now) (hmirrors : m.Mirrors strip l) {key : Nat} {lock : Lock}
    {t : Transition} (hget : m.locks.get? key = some lock)
    (hhold : ⟨t.ctx, lock.address, t.op.side⟩ ∈ l.holds) (htime : t.time = now) :
    (m.release key lock t).Recalls (r.leave ⟨t.ctx, lock.address, t.op.side⟩ t.time) now := by
  have hkeyed := hmirrors.faithful.ready.keyed
  have hgone : ∀ u ∈ m.stack t.ctx, ∀ s ∈ r.having Hold.ctx t.ctx,
      m.locks.anchor? u = some (s.hold.address, s.hold.side) →
      (u.AnchoredAt key t.op.side ↔ decide (s.hold = ⟨t.ctx, lock.address, t.op.side⟩) = true) := by
    intro u _ s hs hat
    rw [hkeyed.anchoredAt_iff hget s.hold hat, ((Roster.mem_having _ _).mp hs).2, decide_eq_true_eq]
  have hsame : (lock.popPosition.endHold t.op.side).address = lock.address :=
    (lock.popPosition.same_endHold t.op.side).address
  have hhistory : (lock.popPosition.endHold t.op.side).history = lock.history.tail :=
    lock.popPosition.history_endHold t.op.side
  constructor
  · intro c
    have hanchor := hmirrors.anchor?_release hget hhold
    have hstack := h.stacked t.ctx
    rw [hmirrors.stack_release hget hhold, Roster.having_leave]
    by_cases hc : t.ctx = c
    · rw [if_pos hc, if_pos hc, htime, ← hc]
      exact (hstack.unwound hgone _).of_anchors fun u _ => congrFun hanchor u
    · rw [if_neg hc, if_neg hc]
      exact (h.stacked c).of_anchors fun u _ => congrFun hanchor u
  · rw [Roster.present_leave]
    exact h.sorted.sublist (List.eraseP_sublist.map _)
  · intro k lock' hget'
    rw [hmirrors.get?_release hget hhold] at hget'
    rw [Roster.having_leave]
    by_cases hk : key = k
    · rw [if_pos hk] at hget'
      cases hget'
      rw [hsame, if_pos rfl, hhistory]
      apply forall₂_tail_eraseP (h.positions key lock hget)
        (h.sorted.sublist (List.filter_sublist.map _))
      obtain ⟨s, hs, hheld⟩ := h.exists_stay hmirrors hhold
      have haddress : s.hold.address = lock.address := by rw [hheld]
      exact ⟨s, (Roster.mem_having _ _).mpr ⟨hs, haddress⟩, decide_eq_true hheld⟩
    · rw [if_neg hk] at hget'
      rw [if_neg fun haddress => hk (hkeyed.key_unique hget hget' haddress)]
      exact h.positions k lock' hget'
  · intro k lock' hget' p hp
    rw [hmirrors.get?_release hget hhold] at hget'
    have hbegun := r.begun_leave_perm ⟨t.ctx, lock.address, t.op.side⟩ t.time
    split at hget'
    · cases hget'
      rw [hsame]
      rw [hhistory] at hp
      obtain ⟨s, hs, hon⟩ := h.taken key lock hget p (List.mem_of_mem_tail hp)
      exact ⟨s, hbegun.mem_iff.mpr hs, hon⟩
    · obtain ⟨s, hs, hon⟩ := h.taken k lock' hget' p hp
      exact ⟨s, hbegun.mem_iff.mpr hs, hon⟩

end Mirrored

end Monitor.Recalls

end LockTrace
