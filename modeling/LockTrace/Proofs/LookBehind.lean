import LockTrace.Proofs.Immediacy

/-!
# Whose accesses decide what is dropped

A lock operation drops the read and the write with which its own context has updated the word of
the lock. Told by the accesses of this context alone, these are its last two that wait
(`ownUpdate`). The buffer is one for all contexts, though, and its last two accesses decide: as
soon as one of them is of another context, nothing is dropped (`lookBehind`, `discards_iff`).
So accesses of other contexts matter where they come after the update or between its two parts,
and nowhere else.
-/

namespace LockTrace

namespace Session

/-! ### The accesses of one context -/

/-- The accesses of one context in a buffer. -/
def accessesOf (ctx : Int64) (as : List PendingAccess) : List PendingAccess :=
  as.filter fun a => decide (a.ctx = ctx)

/-- The last two of some accesses, the latest first, if they are the update of its own lock that
    an operation makes. -/
def ownUpdate (address : UInt64) (ctx : Int64) : List PendingAccess → List PendingAccess
  | second :: first :: _ => if IsOwnUpdate address ctx first second then [second, first] else []
  | _ => []

/-- What an operation of the context `ctx` on the lock at `address` takes out of a buffer. -/
def lookBehind (address : UInt64) (ctx : Int64) (as : List PendingAccess) : List PendingAccess :=
  if ∀ a ∈ as.take 2, a.ctx = ctx then ownUpdate address ctx (accessesOf ctx as) else []

theorem ownUpdate_of_length_lt {address : UInt64} {ctx : Int64} {as : List PendingAccess}
    (h : as.length < 2) : ownUpdate address ctx as = [] := by
  match as, h with
  | [], _ => rfl
  | [_], _ => rfl

theorem lookBehind_of_length_lt {address : UInt64} {ctx : Int64} {as : List PendingAccess}
    (h : as.length < 2) : lookBehind address ctx as = [] := by
  have hown : (accessesOf ctx as).length < 2 := Nat.lt_of_le_of_lt (List.length_filter_le _ _) h
  unfold lookBehind
  rw [ownUpdate_of_length_lt hown, ite_self]

theorem lookBehind_cons_cons (address : UInt64) (ctx : Int64) (second first : PendingAccess)
    (rest : List PendingAccess) :
    lookBehind address ctx (second :: first :: rest) =
      if IsOwnUpdate address ctx first second then [second, first] else [] := by
  unfold lookBehind
  by_cases hctx : second.ctx = ctx ∧ first.ctx = ctx
  · obtain ⟨hsecond, hfirst⟩ := hctx
    have hown : accessesOf ctx (second :: first :: rest) =
        second :: first :: accessesOf ctx rest := by
      simp [accessesOf, hsecond, hfirst]
    rw [if_pos (by simp [hsecond, hfirst]), hown]
    rfl
  · have hnot : ¬ IsOwnUpdate address ctx first second := fun h => hctx ⟨h.2.1, h.1⟩
    rw [if_neg (by simpa using hctx), if_neg hnot]

/-- What is taken out stands at the end of the buffer, and the rest is kept. -/
theorem exists_dropOwnUpdate_eq (address : UInt64) (ctx : Int64) (as : List PendingAccess) :
    ∃ kept, as = lookBehind address ctx as ++ kept ∧
      dropOwnUpdate (some (address, ctx)) as = (kept, (lookBehind address ctx as).length) := by
  match as with
  | [] => exact ⟨[], by simp [lookBehind_of_length_lt, dropOwnUpdate]⟩
  | [a] => exact ⟨[a], by simp [lookBehind_of_length_lt, dropOwnUpdate]⟩
  | second :: first :: rest =>
    rw [lookBehind_cons_cons]
    by_cases hown : IsOwnUpdate address ctx first second
    · exact ⟨rest, by simp [dropOwnUpdate, hown]⟩
    · exact ⟨second :: first :: rest, by simp [dropOwnUpdate, hown]⟩

/-! ### What an operation drops -/

/-- Before an operation of the context `ctx` on the lock at `address`, the accesses `dropped` go
    from the end of the buffer and are counted. All others get their rows, in their order. -/
structure Discards (s : Session) (address : UInt64) (ctx : Int64) (dropped : List PendingAccess) :
    Prop where
  rows : ∃ kept, s.pending = dropped ++ kept ∧
    (s.flush (some (address, ctx))).monitor.accessTable =
      s.monitor.accessTable ++ s.rowsOf kept.reverse s.accessIds.next
  discarded : (s.flush (some (address, ctx))).discarded = s.discarded + dropped.length

theorem Discards.unique {s : Session} {address : UInt64} {ctx : Int64}
    {dropped dropped' : List PendingAccess} (h : s.Discards address ctx dropped)
    (h' : s.Discards address ctx dropped') : dropped = dropped' := by
  obtain ⟨⟨kept, hpending, _⟩, hcount⟩ := h
  obtain ⟨⟨kept', hpending', _⟩, hcount'⟩ := h'
  have hlength : dropped.length = dropped'.length :=
    Nat.add_left_cancel (hcount.symm.trans hcount')
  exact (List.append_inj (hpending.symm.trans hpending') hlength).1

theorem discards_lookBehind (s : Session) (address : UInt64) (ctx : Int64) :
    s.Discards address ctx (lookBehind address ctx s.pending) := by
  obtain ⟨kept, hpending, hdrop⟩ := exists_dropOwnUpdate_eq address ctx s.pending
  have hflush : s.flush (some (address, ctx)) = kept.reverse.foldl writeAccess
      { s with
        pending := []
        discarded := s.discarded + (lookBehind address ctx s.pending).length } := by
    unfold flush
    rw [hdrop]
  constructor
  · refine ⟨kept, hpending, ?_⟩
    rw [hflush, accessTable_foldl_writeAccess]
    rfl
  · rw [hflush]
    exact (foldl_writeAccess_beside _ _).1.discarded

theorem lookBehind_congr (address : UInt64) {ctx : Int64} {as bs : List PendingAccess}
    (hown : accessesOf ctx as = accessesOf ctx bs)
    (hlast : (∀ a ∈ as.take 2, a.ctx = ctx) ↔ ∀ b ∈ bs.take 2, b.ctx = ctx) :
    lookBehind address ctx as = lookBehind address ctx bs := by
  unfold lookBehind
  rw [hown]
  exact if_congr hlast rfl rfl

/-- The last two accesses of an operation's own context are dropped if they are its update of the
    lock and also the last two of the whole buffer; otherwise nothing is dropped. So two buffers
    with the same accesses of this context lose the same ones as long as both end with two of them,
    or neither does. -/
theorem discards_iff (address : UInt64) (ctx : Int64) :
    (∀ (s : Session) dropped,
      s.Discards address ctx dropped ↔ dropped = lookBehind address ctx s.pending) ∧
    ∀ s s' : Session, accessesOf ctx s.pending = accessesOf ctx s'.pending →
      ((∀ a ∈ s.pending.take 2, a.ctx = ctx) ↔ ∀ a ∈ s'.pending.take 2, a.ctx = ctx) →
      ∀ dropped, s.Discards address ctx dropped ↔ s'.Discards address ctx dropped := by
  have hiff : ∀ (s : Session) dropped,
      s.Discards address ctx dropped ↔ dropped = lookBehind address ctx s.pending := by
    intro s dropped
    constructor
    · exact fun h => h.unique (s.discards_lookBehind address ctx)
    · rintro rfl
      exact s.discards_lookBehind address ctx
  refine ⟨hiff, ?_⟩
  intro s s' hown hlast dropped
  rw [hiff, hiff, lookBehind_congr address hown hlast]

/-- A context updates the word of a lock. -/
def plainUpdate : List Event :=
  [⟨2, 1, .access .read 4, 0x100, "", Site.unknown, 0⟩,
   ⟨2, 1, .access .write 4, 0x100, "", Site.unknown, 0⟩]

/-- An access of another context before the update does not matter. -/
theorem discards_iff_of_plainUpdate :
    let s := ((Session.initial .default ∅).run plainUpdate).1
    let s' := ((Session.initial .default ∅).run
      (⟨1, 2, .access .read 4, 0x200, "", Site.unknown, 0⟩ :: plainUpdate)).1
    accessesOf 1 s.pending = accessesOf 1 s'.pending ∧
      ((∀ a ∈ s.pending.take 2, a.ctx = 1) ↔ ∀ a ∈ s'.pending.take 2, a.ctx = 1) ∧
      ∀ dropped, s.Discards 0x100 1 dropped ↔ s'.Discards 0x100 1 dropped :=
  ⟨by decide, by decide, (discards_iff 0x100 1).2 _ _ (by decide) (by decide)⟩

/-- Before the lock is acquired, another context reads elsewhere. -/
def overtakenUpdate : List Event :=
  plainUpdate ++ [⟨2, 2, .access .read 4, 0x200, "", Site.unknown, 0⟩]

/-- The accesses of the operation's own context do not decide alone. -/
theorem not_forall_discards_ownUpdate :
    ¬ ∀ (config : Config) (symbols : SymbolTable) (es : List Event) (s : Session)
        (address : UInt64) (ctx : Int64),
      (Session.initial config symbols).run es = (s, none) →
      s.Discards address ctx (ownUpdate address ctx (accessesOf ctx s.pending)) := by
  intro hall
  have hrun : ((Session.initial .default ∅).run overtakenUpdate).2 = none := by decide
  have hdiscards := hall .default ∅ overtakenUpdate
    ((Session.initial .default ∅).run overtakenUpdate).1 0x100 1 (Prod.ext rfl hrun)
  exact absurd hdiscards.discarded (by decide)

end Session

end LockTrace
