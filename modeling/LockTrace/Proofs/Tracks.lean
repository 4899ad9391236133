import LockTrace.Proofs.Mirrors
import LockTrace.Proofs.Roster
import LockTrace.Proofs.TxnRows

/-!
# The rows of one acquisition

The transaction of an acquisition is closed and opened again whenever one below it is closed, so
that an acquisition leaves a chain of rows, each of which starts where the one before stops
(`TxnRow.Span`). A track is an acquisition with the rows that it has left so far, and an open
transaction continues it (`Continues`). Closing a transaction ends the track that it continues and
lets those above go on with one more row (`exists_released`): the stack says which transactions
these are, and the tracks of the other contexts stay as they are. The rows that come with it name
the sub-locks of their acquisitions (`Ready.names_closed`).
-/

namespace LockTrace

/-- The first row starts at `since`, every other one where the one before it stops, and the last
    one stops at `till`. -/
def TxnRow.Span (since till : UInt64) : List TxnRow → Prop
  | [] => since = till
  | row :: rows => row.start = since ∧ Span row.stop till rows

theorem TxnRow.Span.concat {since : UInt64} {t : Txn} {rows : List TxnRow}
    (h : Span since t.start rows) (time : UInt64) : Span since time (rows ++ [t.row time]) := by
  induction rows generalizing since with
  | nil => exact ⟨h.symm, rfl⟩
  | cons first rows ih => exact ⟨h.1, ih h.2⟩

/-! ### What is closed of a stack -/

namespace Output

theorem heldRowsOf_subset {os ps : List Output} (h : os ⊆ ps) (txn : Nat) :
    heldRowsOf txn os ⊆ heldRowsOf txn ps := by
  intro row hrow
  obtain ⟨hmem, htxn⟩ := List.mem_filter.mp hrow
  exact List.mem_filter.mpr ⟨List.filterMap_subset heldRow? h hmem, htxn⟩

end Output

namespace LockStore

section Unwind

variable (locks : LockStore) (key : Nat) (side : Side) (ctx : Int64) (time : UInt64)

theorem exists_closeOutputs_subset (skipEmpty purge : Bool) {s : TxnStack} {t : Txn}
    (ht : t ∈ s.closed key side) :
    ∃ below, t :: below ⊆ s ∧ locks.closeOutputs skipEmpty time t below ⊆
      locks.unwindOutputs skipEmpty key side ctx time purge s := by
  induction s with
  | nil => cases ht
  | cons top below ih =>
    rw [unwindOutputs]
    rcases List.mem_cons.mp ht with rfl | ht
    · exact ⟨below, List.Subset.refl _, List.subset_append_left _ _⟩
    · split at ht
      · cases ht
      · next hanchor =>
        obtain ⟨rest, hstack, houtputs⟩ := ih ht
        rw [if_neg hanchor]
        refine ⟨rest, List.subset_cons_of_subset top hstack, ?_⟩
        exact List.subset_append_of_subset_right _ (List.subset_append_of_subset_right _ houtputs)

end Unwind

end LockStore

/-! ### Tracks -/

/-- An acquisition that is not yet released, with the rows that it has left. -/
structure Track where
  stay : Stay
  rows : List TxnRow

namespace Track

/-- The acquisitions of one context. -/
def within (ctx : Int64) (ks : List Track) : List Track :=
  ks.filter (fun k => decide (k.stay.hold.ctx = ctx))

theorem within_cons (ctx : Int64) (k : Track) (ks : List Track) :
    within ctx (k :: ks) =
      if k.stay.hold.ctx = ctx then k :: within ctx ks else within ctx ks := by
  simp [within, List.filter_cons]

def extend (k : Track) (row : TxnRow) : Track := { k with rows := k.rows ++ [row] }

@[simp] theorem stay_extend (k : Track) (row : TxnRow) : (k.extend row).stay = k.stay := rfl

@[simp] theorem rows_extend (k : Track) (row : TxnRow) :
    (k.extend row).rows = k.rows ++ [row] := rfl

end Track

/-- The transaction is anchored where the acquisition is, and starts where its rows end. -/
structure LockStore.Continues (locks : LockStore) (t : Txn) (k : Track) : Prop where
  anchor : locks.anchor? t = some (k.stay.hold.address, k.stay.hold.side)
  span : TxnRow.Span k.stay.since t.start k.rows

theorem LockStore.Continues.reopened {locks : LockStore} {t : Txn} {k : Track}
    (h : locks.Continues t k) (id : Nat) (time : UInt64) :
    locks.Continues (t.reopened id time) (k.extend (t.row time)) :=
  ⟨h.anchor, h.span.concat time⟩

/-- Of the tracks `ks` the latest one of a hold has ended: `chain` are its rows, and `left` are the
    other ones. The rows in `new` are those that were written, and each `tells` its hold. -/
structure Released (locks : LockStore) (tells : TxnRow → Hold → Prop) (time : UInt64)
    (ks : List Track) (stack : TxnStack) (new : List TxnRow) (stay : Stay) (chain : List TxnRow)
    (left : List Track) : Prop where
  split : ∃ later earlier, ks.map Track.stay = later ++ stay :: earlier ∧
    left.map Track.stay = later ++ earlier ∧ ∀ u ∈ later, u.hold ≠ stay.hold
  stack : List.Forall₂ locks.Continues stack (Track.within stay.hold.ctx left)
  others : ∀ ctx, ctx ≠ stay.hold.ctx → Track.within ctx left = Track.within ctx ks
  nonempty : chain ≠ []
  span : TxnRow.Span stay.since time chain
  tells_chain : ∀ row ∈ chain, tells row stay.hold
  tells_left : ∀ k ∈ left, ∀ row ∈ k.rows, tells row k.stay.hold
  table : (new ++ ks.flatMap Track.rows).Perm (chain ++ left.flatMap Track.rows)

namespace Released

variable {locks : LockStore} {tells : TxnRow → Hold → Prop} {time : UInt64} {ks left : List Track}
  {stack : TxnStack} {new chain : List TxnRow} {stay : Stay}

/-- The transaction continues the track that ends. -/
theorem here {t : Txn} {k : Track} (hcontinues : locks.Continues t k)
    (hstack : List.Forall₂ locks.Continues stack (Track.within k.stay.hold.ctx ks))
    (hrow : tells (t.row time) k.stay.hold) (htold : ∀ k' ∈ k :: ks, ∀ row ∈ k'.rows,
      tells row k'.stay.hold) :
    Released locks tells time (k :: ks) stack [t.row time] k.stay (k.rows ++ [t.row time]) ks where
  split := ⟨[], ks.map Track.stay, rfl, rfl, by simp⟩
  stack := hstack
  others ctx hctx := by rw [Track.within_cons, if_neg (Ne.symm hctx)]
  nonempty := by simp
  span := hcontinues.span.concat time
  tells_chain row hmem := by
    rcases List.mem_append.mp hmem with hmem | hmem
    · exact htold k List.mem_cons_self row hmem
    · rw [List.mem_singleton.mp hmem]
      exact hrow
  tells_left k' hk' := htold k' (List.mem_cons_of_mem _ hk')
  table := by
    simp only [List.flatMap_cons, List.append_assoc, List.singleton_append]
    exact List.perm_middle.symm

/-- The transaction lies above the one that continues the track that ends. -/
theorem above (h : Released locks tells time ks stack new stay chain left) {t : Txn} {k : Track}
    (hcontinues : locks.Continues t k) (hctx : k.stay.hold.ctx = stay.hold.ctx)
    (hhold : k.stay.hold ≠ stay.hold) (id : Nat) (hrow : tells (t.row time) k.stay.hold)
    (htold : ∀ row ∈ k.rows, tells row k.stay.hold) :
    Released locks tells time (k :: ks) (t.reopened id time :: stack) (t.row time :: new) stay chain
      (k.extend (t.row time) :: left) where
  split := by
    obtain ⟨later, earlier, hks, hleft, hlater⟩ := h.split
    refine ⟨k.stay :: later, earlier, ?_, ?_, ?_⟩
    · rw [List.map_cons, hks, List.cons_append]
    · rw [List.map_cons, hleft, Track.stay_extend, List.cons_append]
    · intro u hu
      rcases List.mem_cons.mp hu with rfl | hu
      · exact hhold
      · exact hlater u hu
  stack := by
    rw [Track.within_cons, Track.stay_extend, if_pos hctx]
    exact .cons (hcontinues.reopened id time) h.stack
  others ctx hne := by
    have hk : ¬ k.stay.hold.ctx = ctx := fun heq => hne (heq.symm.trans hctx)
    rw [Track.within_cons, Track.within_cons, Track.stay_extend, if_neg hk, if_neg hk,
      h.others ctx hne]
  nonempty := h.nonempty
  span := h.span
  tells_chain := h.tells_chain
  tells_left k' hk' := by
    rcases List.mem_cons.mp hk' with rfl | hk'
    · intro row hmem
      rcases List.mem_append.mp hmem with hmem | hmem
      · exact htold row hmem
      · rw [List.mem_singleton.mp hmem]
        exact hrow
    · exact h.tells_left k' hk'
  table := by
    have hcount := List.perm_iff_count.mp h.table
    rw [List.perm_iff_count]
    intro row
    have hrest := hcount row
    simp only [Track.rows_extend, List.flatMap_cons, List.count_append, List.count_cons,
      List.count_nil] at hrest ⊢
    omega

/-- The track is one of another context. -/
theorem other (h : Released locks tells time ks stack new stay chain left) {k : Track}
    (hctx : k.stay.hold.ctx ≠ stay.hold.ctx) (htold : ∀ row ∈ k.rows, tells row k.stay.hold) :
    Released locks tells time (k :: ks) stack new stay chain (k :: left) where
  split := by
    obtain ⟨later, earlier, hks, hleft, hlater⟩ := h.split
    refine ⟨k.stay :: later, earlier, ?_, ?_, ?_⟩
    · rw [List.map_cons, hks, List.cons_append]
    · rw [List.map_cons, hleft, List.cons_append]
    · intro u hu
      rcases List.mem_cons.mp hu with rfl | hu
      · exact fun heq => hctx (congrArg Hold.ctx heq)
      · exact hlater u hu
  stack := by
    rw [Track.within_cons, if_neg hctx]
    exact h.stack
  others ctx hne := by rw [Track.within_cons, Track.within_cons, h.others ctx hne]
  nonempty := h.nonempty
  span := h.span
  tells_chain := h.tells_chain
  tells_left k' hk' := by
    rcases List.mem_cons.mp hk' with rfl | hk'
    · exact htold
    · exact h.tells_left k' hk'
  table := by
    have hcount := List.perm_iff_count.mp h.table
    rw [List.perm_iff_count]
    intro row
    have hrest := hcount row
    simp only [List.flatMap_cons, List.count_append] at hrest ⊢
    omega

end Released

/-- When the innermost transaction of a sub-lock is closed, the latest track of its context and
    sub-lock ends. -/
theorem exists_released {locks : LockStore} {tells : TxnRow → Hold → Prop} {key : Nat} {side : Side}
    (hold : Hold) (time : UInt64) (next : Nat) {s : TxnStack} {ks : List Track}
    (hstack : List.Forall₂ locks.Continues s (Track.within hold.ctx ks))
    (hkey : ∀ t ∈ s, ∀ h : Hold, h.ctx = hold.ctx → locks.anchor? t = some (h.address, h.side) →
      (t.AnchoredAt key side ↔ h = hold))
    (hanchor : s.HasAnchor key side)
    (hnew : ∀ t ∈ s.closed key side, ∀ h : Hold, locks.anchor? t = some (h.address, h.side) →
      tells (t.row time) h)
    (htold : ∀ k ∈ ks, ∀ row ∈ k.rows, tells row k.stay.hold) :
    ∃ stay chain left, stay.hold = hold ∧
      Released locks tells time ks (s.unwound key side time false next)
        ((s.closed key side).map (·.row time)) stay chain left := by
  induction ks generalizing s next with
  | nil =>
    cases hstack
    obtain ⟨t, ht, _⟩ := hanchor
    cases ht
  | cons k ks ih =>
    have htold' : ∀ k' ∈ ks, ∀ row ∈ k'.rows, tells row k'.stay.hold :=
      fun k' hk' => htold k' (List.mem_cons_of_mem _ hk')
    rw [Track.within_cons] at hstack
    by_cases hctx : k.stay.hold.ctx = hold.ctx
    · rw [if_pos hctx] at hstack
      cases hstack with
      | @cons t _ below _ hcontinues hbelow =>
        have hrow : tells (t.row time) k.stay.hold :=
          hnew t List.mem_cons_self k.stay.hold hcontinues.anchor
        have hiff := hkey t List.mem_cons_self k.stay.hold hctx hcontinues.anchor
        rw [TxnStack.unwound, TxnStack.closed]
        by_cases hat : t.AnchoredAt key side
        · have hhold := hiff.mp hat
          rw [if_pos hat, if_pos hat]
          subst hhold
          exact ⟨k.stay, _, ks, rfl, .here hcontinues hbelow hrow htold⟩
        · rw [TxnStack.closed, if_neg hat] at hnew
          obtain ⟨stay, chain, left, rfl, hreleased⟩ := ih (next + 1) hbelow
            (fun u hu => hkey u (List.mem_cons_of_mem _ hu))
            ((TxnStack.hasAnchor_cons.mp hanchor).resolve_left hat)
            (fun u hu => hnew u (List.mem_cons_of_mem _ hu)) htold'
          rw [if_neg hat, if_neg hat]
          have habove := hreleased.above hcontinues hctx (fun heq => hat (hiff.mpr heq)) next hrow
            (htold k List.mem_cons_self)
          exact ⟨stay, chain, _, rfl, habove⟩
    · rw [if_neg hctx] at hstack
      obtain ⟨stay, chain, left, rfl, hreleased⟩ := ih next hstack hkey hanchor hnew htold'
      exact ⟨stay, chain, _, rfl, hreleased.other hctx (htold k List.mem_cons_self)⟩

namespace Monitor

/-- The rows on held sub-locks name the sub-lock of the hold beside the transaction. -/
def Names (m : Monitor) (row : TxnRow) (h : Hold) : Prop :=
  some (h.address, h.side) ∈ m.named row.id

theorem Names.of_append {m m' : Monitor} {row : TxnRow} {h : Hold} (hnames : m.Names row h)
    {os : List Output} (houtputs : m'.outputs = m.outputs ++ os) : m'.Names row h := by
  obtain ⟨held, hheld, hplace⟩ := List.mem_map.mp hnames
  refine List.mem_map.mpr ⟨held, ?_, place?_of_append houtputs hplace⟩
  apply Output.heldRowsOf_subset _ row.id hheld
  rw [houtputs]
  exact List.subset_append_left _ _

/-- A transaction that is closed names the sub-lock at which it is anchored. -/
theorem Ready.names_closed {m : Monitor} (h : m.Ready) (hbacked : m.Backed)
    (hfull : m.skipEmpty = false) {key : Nat} {side : Side} {ctx : Int64} (time : UInt64) {t : Txn}
    (ht : t ∈ (m.stack ctx).closed key side) {hold : Hold}
    (hanchor : m.locks.anchor? t = some (hold.address, hold.side)) :
    (m.closeTxn key side ctx time false).2.Names (t.row time) hold := by
  have houtputs := m.outputs_closeTxn key side ctx time false
  obtain ⟨below, hstack, hclosed⟩ :=
    m.locks.exists_closeOutputs_subset key side ctx time m.skipEmpty false ht
  have hbacks : ∀ u ∈ t :: below, m.locks.Backs u := by
    intro u hu
    exact hbacked u (mem_openTxns_iff.mpr ⟨ctx, hstack hu⟩)
  have hwritten : ¬ (m.skipEmpty = true ∧ t.accesses = 0) := by
    rw [hfull]
    simp
  have hnamed := (h.named_closeOutputs hbacks hwritten time
    (fun id p => place?_of_append houtputs)).2 (some (hold.address, hold.side))
  obtain ⟨row, hrow, hplace⟩ := List.mem_map.mp
    (hnamed.mpr (List.mem_map.mpr ⟨t, List.mem_cons_self, hanchor⟩))
  refine List.mem_map.mpr ⟨row, ?_, hplace⟩
  apply Output.heldRowsOf_subset _ t.id hrow
  rw [houtputs]
  exact List.subset_append_of_subset_right _ hclosed

end Monitor

end LockTrace
