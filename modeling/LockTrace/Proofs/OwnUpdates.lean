import Mathlib.Data.List.Basic
import LockTrace.Session.Basic

/-!
# Which accesses are dropped

The events of a trace alone tell which of its accesses are dropped (`Dropped`): a read and a
write of the word of a lock, one right after the other, if an operation on that lock is the next
event that no access waits for. An access that still waits (`Waits`) is not dropped yet, and
each event decides at most about the last two that wait (`ownUpdate_iff`).

Positions of events are listed in ascending order (`Enumerates`).
-/

namespace LockTrace

/-! ### Ascending lists -/

/-- The numbers with a property, in ascending order. -/
structure Enumerates (ns : List Nat) (P : Nat → Prop) : Prop where
  ascending : ns.Pairwise (· < ·)
  mem_iff : ∀ n, n ∈ ns ↔ P n

namespace Enumerates

variable {ns ms : List Nat} {P Q : Nat → Prop}

theorem nil (h : ∀ n, ¬ P n) : Enumerates [] P :=
  ⟨List.Pairwise.nil, fun n => iff_of_false List.not_mem_nil (h n)⟩

theorem congr (h : Enumerates ns P) (hPQ : ∀ n, P n ↔ Q n) : Enumerates ns Q :=
  ⟨h.ascending, fun n => (h.mem_iff n).trans (hPQ n)⟩

theorem append (h : Enumerates ns P) (h' : Enumerates ms Q) (hlt : ∀ n m, P n → Q m → n < m) :
    Enumerates (ns ++ ms) (fun n => P n ∨ Q n) := by
  constructor
  · refine List.pairwise_append.mpr ⟨h.ascending, h'.ascending, ?_⟩
    intro n hn m hm
    exact hlt n m ((h.mem_iff n).mp hn) ((h'.mem_iff m).mp hm)
  · intro n
    rw [List.mem_append, h.mem_iff, h'.mem_iff]

theorem singleton (k : Nat) : Enumerates [k] (fun n => n = k) :=
  ⟨List.pairwise_singleton _ _, fun _ => List.mem_singleton⟩

/-- Without the last two. -/
theorem of_append_pair {p q : Nat} (h : Enumerates (ns ++ [p, q]) P) :
    Enumerates ns (fun n => P n ∧ ¬ (n = p ∨ n = q)) := by
  obtain ⟨hns, _, hlt⟩ := List.pairwise_append.mp h.ascending
  refine ⟨hns, fun n => ?_⟩
  rw [← h.mem_iff, List.mem_append]
  constructor
  · intro hn
    refine ⟨Or.inl hn, ?_⟩
    rintro (rfl | rfl)
    · exact Nat.lt_irrefl _ (hlt n hn n (by simp))
    · exact Nat.lt_irrefl _ (hlt n hn n (by simp))
  · rintro ⟨hn | hn, hne⟩
    · exact hn
    · simp only [List.mem_cons, List.not_mem_nil, or_false] at hn
      exact absurd hn hne

/-- A number with one number above it comes last but one. -/
theorem exists_append_pair {p q : Nat} (h : Enumerates ns P) (hp : P p) (hq : P q) (hpq : p < q)
    (hlast : ∀ n, P n → p < n → n = q) : ∃ front, ns = front ++ [p, q] := by
  obtain ⟨front, rest, rfl⟩ := List.append_of_mem ((h.mem_iff p).mpr hp)
  obtain ⟨_, hrest, hlt⟩ := List.pairwise_append.mp h.ascending
  obtain ⟨habove, hrest⟩ := List.pairwise_cons.mp hrest
  have hall : ∀ n ∈ rest, n = q := by
    intro n hn
    exact hlast n ((h.mem_iff n).mp (by simp [hn])) (habove n hn)
  have hmem : q ∈ rest := by
    rcases List.mem_append.mp ((h.mem_iff q).mpr hq) with hfront | hback
    · exact absurd (hlt q hfront p List.mem_cons_self) (Nat.lt_asymm hpq)
    · exact (List.mem_cons.mp hback).resolve_left (Nat.ne_of_gt hpq)
  refine ⟨front, ?_⟩
  cases rest with
  | nil => cases hmem
  | cons n rest =>
    cases rest with
    | nil => rw [hall n List.mem_cons_self]
    | cons m rest =>
      -- both would be the one number above
      have hnm := (List.pairwise_cons.mp hrest).1 m List.mem_cons_self
      rw [hall n (by simp), hall m (by simp)] at hnm
      exact absurd hnm (Nat.lt_irrefl q)

/-- Only the last number comes after the last but one. -/
theorem last_pair {p q : Nat} (h : Enumerates (ns ++ [p, q]) P) :
    P p ∧ P q ∧ p < q ∧ ∀ n, P n → p < n → n = q := by
  obtain ⟨_, hpair, hlt⟩ := List.pairwise_append.mp h.ascending
  refine ⟨(h.mem_iff p).mp (by simp), (h.mem_iff q).mp (by simp),
    (List.pairwise_cons.mp hpair).1 q (by simp), ?_⟩
  intro n hn hpn
  rcases List.mem_append.mp ((h.mem_iff n).mpr hn) with hfront | hback
  · exact absurd (hlt n hfront p (by simp)) (Nat.lt_asymm hpn)
  · simp only [List.mem_cons, List.not_mem_nil, or_false] at hback
    exact hback.resolve_left (Nat.ne_of_gt hpn)

end Enumerates

/-! ### Events -/

namespace Event

/-- Reads and writes. -/
def IsAccess (e : Event) : Prop := ∃ kind size, e.operation = .access kind size

/-- Operations on locks of the types that are left aside. -/
def LeftAside (e : Event) : Prop :=
  e.operation.lockOp?.isSome = true ∧ e.typeName ∈ Session.ignoredTypes

/-- Events after which the accesses that wait go on waiting. -/
def Defers (e : Event) : Prop := e.IsAccess ∨ e.LeftAside

/-- A lock operation that is not left aside, and the read and the write with which it updates
    the word of its lock. -/
structure Updates (op first second : Event) : Prop where
  lock : op.operation.lockOp?.isSome = true
  kept : op.typeName ∉ Session.ignoredTypes
  ctx : first.ctx = op.ctx ∧ second.ctx = op.ctx
  address : first.address = op.address ∧ second.address = op.address
  time : first.time = second.time
  operations : ∃ size, first.operation = .access .read size ∧ second.operation = .access .write size

theorem IsAccess.lockOp?_eq_none {e : Event} (h : e.IsAccess) : e.operation.lockOp? = none := by
  obtain ⟨kind, size, heq⟩ := h
  rw [heq]
  rfl

theorem IsAccess.not_leftAside {e : Event} (h : e.IsAccess) : ¬ e.LeftAside := by
  intro haside
  have hlock := haside.1
  rw [h.lockOp?_eq_none] at hlock
  cases hlock

theorem Updates.not_defers {op first second : Event} (h : op.Updates first second) :
    ¬ op.Defers := by
  rintro (haccess | haside)
  · have hlock := h.lock
    rw [haccess.lockOp?_eq_none] at hlock
    cases hlock
  · exact h.kept haside.2

end Event

/-! ### Positions in a trace -/

namespace Trace

/-- There is an access at a position. -/
def AccessAt (es : List Event) (n : Nat) : Prop := ∃ e, es[n]? = some e ∧ e.IsAccess

/-- The read at `p` and the write at `q` are the update of its lock by the operation at `l`.
    Nothing comes between these three but operations that are left aside. -/
structure OwnUpdate (es : List Event) (p q l : Nat) : Prop where
  order : p < q ∧ q < l
  updates : ∃ first second op, es[p]? = some first ∧ es[q]? = some second ∧ es[l]? = some op ∧
    op.Updates first second
  between : ∀ n e, p < n → n < l → n ≠ q → es[n]? = some e → e.LeftAside

/-- An access that belongs to a lock operation's update of its lock. -/
def Dropped (es : List Event) (n : Nat) : Prop := ∃ p q l, OwnUpdate es p q l ∧ (n = p ∨ n = q)

/-- An access that still waits when the trace has come to its end. -/
def Waits (es : List Event) (n : Nat) : Prop :=
  AccessAt es n ∧ ∀ k e, n < k → es[k]? = some e → e.Defers

/-- An access that has been written. -/
def Written (es : List Event) (n : Nat) : Prop :=
  AccessAt es n ∧ ¬ Waits es n ∧ ¬ Dropped es n

variable {es : List Event} {e : Event} {n p q : Nat}

theorem AccessAt.lt_length (h : AccessAt es n) : n < es.length := by
  obtain ⟨_, hget, _⟩ := h
  exact (List.getElem?_eq_some_iff.mp hget).1

theorem lt_of_waits_of_written (hwaits : Waits es n) {m : Nat} (h : Written es m) : m < n := by
  obtain ⟨haccess, hwaited, _⟩ := h
  rcases Nat.lt_trichotomy m n with hlt | heq | hgt
  · exact hlt
  · exact absurd (heq ▸ hwaits) hwaited
  · exact absurd ⟨haccess, fun k e hk => hwaits.2 k e (Nat.lt_trans hgt hk)⟩ hwaited

/-! ### One more event -/

theorem getElem?_concat (hn : n < es.length) : (es ++ [e])[n]? = es[n]? :=
  List.getElem?_append_left hn

theorem getElem?_concat_eq_some_iff {e' : Event} :
    (es ++ [e])[n]? = some e' ↔ es[n]? = some e' ∨ n = es.length ∧ e' = e := by
  constructor
  · intro hget
    rcases Nat.lt_or_ge n es.length with hlt | hge
    · rw [getElem?_concat hlt] at hget
      exact Or.inl hget
    · have hlt := (List.getElem?_eq_some_iff.mp hget).1
      rw [List.length_append, List.length_singleton] at hlt
      have hn : n = es.length := by omega
      rw [hn, List.getElem?_concat_length] at hget
      exact Or.inr ⟨hn, (Option.some.inj hget).symm⟩
  · rintro (hget | ⟨rfl, rfl⟩)
    · rw [getElem?_concat (List.getElem?_eq_some_iff.mp hget).1]
      exact hget
    · exact List.getElem?_concat_length

theorem accessAt_concat : AccessAt (es ++ [e]) n ↔ AccessAt es n ∨ n = es.length ∧ e.IsAccess := by
  unfold AccessAt
  simp only [getElem?_concat_eq_some_iff, or_and_right, exists_or, and_assoc, exists_and_left,
    exists_eq_left]

/-- No access waits any more after an event that does not let it. -/
theorem not_waits_concat (he : ¬ e.Defers) : ¬ Waits (es ++ [e]) n := by
  rintro ⟨haccess, hafter⟩
  rcases accessAt_concat.mp haccess with hbefore | ⟨_, hnow⟩
  · exact he (hafter es.length e hbefore.lt_length List.getElem?_concat_length)
  · exact he (Or.inl hnow)

theorem waits_concat (he : e.Defers) :
    Waits (es ++ [e]) n ↔ Waits es n ∨ n = es.length ∧ e.IsAccess := by
  constructor
  · rintro ⟨haccess, hafter⟩
    rcases accessAt_concat.mp haccess with hbefore | hnow
    · refine Or.inl ⟨hbefore, ?_⟩
      intro k e' hk hget
      exact hafter k e' hk (getElem?_concat_eq_some_iff.mpr (Or.inl hget))
    · exact Or.inr hnow
  · intro h
    refine ⟨accessAt_concat.mpr (h.imp And.left id), ?_⟩
    intro k e' hk hget
    rcases getElem?_concat_eq_some_iff.mp hget with hget | ⟨_, rfl⟩
    · rcases h with ⟨_, hafter⟩ | ⟨rfl, _⟩
      · exact hafter k e' hk hget
      · exact absurd (List.getElem?_eq_some_iff.mp hget).1 (Nat.lt_asymm hk)
    · exact he

/-- An update that is over stays one. -/
theorem ownUpdate_concat {l : Nat} (hl : l < es.length) :
    OwnUpdate (es ++ [e]) p q l ↔ OwnUpdate es p q l := by
  constructor
  · rintro ⟨horder, ⟨first, second, op, hp, hq, hop, hupdates⟩, hbetween⟩
    rw [getElem?_concat (by omega)] at hp hq hop
    refine ⟨horder, ⟨first, second, op, hp, hq, hop, hupdates⟩, ?_⟩
    intro n e' hpn hnl hne hget
    refine hbetween n e' hpn hnl hne ?_
    rw [getElem?_concat (by omega)]
    exact hget
  · rintro ⟨horder, ⟨first, second, op, hp, hq, hop, hupdates⟩, hbetween⟩
    refine ⟨horder, ⟨first, second, op, ?_, ?_, ?_, hupdates⟩, ?_⟩
    · rw [getElem?_concat (by omega)]
      exact hp
    · rw [getElem?_concat (by omega)]
      exact hq
    · rw [getElem?_concat hl]
      exact hop
    · intro n e' hpn hnl hne hget
      rw [getElem?_concat (by omega)] at hget
      exact hbetween n e' hpn hnl hne hget

theorem dropped_concat :
    Dropped (es ++ [e]) n ↔
      Dropped es n ∨ ∃ p q, OwnUpdate (es ++ [e]) p q es.length ∧ (n = p ∨ n = q) := by
  constructor
  · rintro ⟨p, q, l, hupdate, hn⟩
    obtain ⟨_, _, _, _, _, hop, _⟩ := hupdate.updates
    rcases getElem?_concat_eq_some_iff.mp hop with hop | ⟨rfl, _⟩
    · have hl := (List.getElem?_eq_some_iff.mp hop).1
      exact Or.inl ⟨p, q, l, (ownUpdate_concat hl).mp hupdate, hn⟩
    · exact Or.inr ⟨p, q, hupdate, hn⟩
  · rintro (⟨p, q, l, hupdate, hn⟩ | ⟨p, q, hupdate, hn⟩)
    · obtain ⟨_, _, _, _, _, hop, _⟩ := hupdate.updates
      exact ⟨p, q, l, (ownUpdate_concat (List.getElem?_eq_some_iff.mp hop).1).mpr hupdate, hn⟩
    · exact ⟨p, q, es.length, hupdate, hn⟩

/-- What waits may still be dropped, but is not yet. -/
theorem Waits.not_dropped (h : Waits es n) : ¬ Dropped es n := by
  rintro ⟨p, q, l, ⟨horder, ⟨_, _, op, _, _, hop, hupdates⟩, _⟩, hn⟩
  exact hupdates.not_defers (h.2 l op (by omega) hop)

/-- An event can only make the last two accesses that wait its update. -/
theorem ownUpdate_iff :
    OwnUpdate (es ++ [e]) p q es.length ↔
      (Waits es p ∧ Waits es q ∧ p < q ∧ ∀ n, Waits es n → p < n → n = q) ∧
        ∃ first second, es[p]? = some first ∧ es[q]? = some second ∧ e.Updates first second := by
  constructor
  · rintro ⟨⟨hpq, hql⟩, ⟨first, second, op, hp, hq, hop, hupdates⟩, hbetween⟩
    rw [getElem?_concat (by omega)] at hp hq
    rw [List.getElem?_concat_length] at hop
    cases hop
    obtain ⟨size, hread, hwrite⟩ := hupdates.operations
    have haside : ∀ k e', p < k → k ≠ q → es[k]? = some e' → e'.LeftAside := by
      intro k e' hk hne hget
      have hlt := (List.getElem?_eq_some_iff.mp hget).1
      refine hbetween k e' hk hlt hne ?_
      rw [getElem?_concat hlt]
      exact hget
    refine ⟨⟨⟨⟨first, hp, .read, size, hread⟩, ?_⟩, ⟨⟨second, hq, .write, size, hwrite⟩, ?_⟩, hpq,
      ?_⟩, first, second, hp, hq, hupdates⟩
    · intro k e' hk hget
      by_cases hkq : k = q
      · rw [hkq, hq] at hget
        cases hget
        exact Or.inl ⟨.write, size, hwrite⟩
      · exact Or.inr (haside k e' hk hkq hget)
    · intro k e' hk hget
      exact Or.inr (haside k e' (Nat.lt_trans hpq hk) (Nat.ne_of_gt hk) hget)
    · rintro n ⟨⟨e', hget, haccess⟩, _⟩ hpn
      by_contra hnq
      exact haccess.not_leftAside (haside n e' hpn hnq hget)
  · rintro ⟨⟨hp, hq, hpq, hlast⟩, first, second, hgetp, hgetq, hupdates⟩
    have hlt := hq.1.lt_length
    refine ⟨⟨hpq, hlt⟩, ⟨first, second, e, ?_, ?_, List.getElem?_concat_length, hupdates⟩, ?_⟩
    · rw [getElem?_concat (by omega)]
      exact hgetp
    · rw [getElem?_concat hlt]
      exact hgetq
    · intro n e' hpn hnl hnq hget
      rw [getElem?_concat hnl] at hget
      apply (hp.2 n e' hpn hget).resolve_left
      intro haccess
      exact hnq (hlast n ⟨⟨e', hget, haccess⟩, fun k e'' hk => hp.2 k e'' (by omega)⟩ hpn)

/-- Events that let accesses wait write none. -/
theorem written_concat_of_defers (he : e.Defers) : Written (es ++ [e]) n ↔ Written es n := by
  have hnone : ∀ p q, ¬ OwnUpdate (es ++ [e]) p q es.length := by
    intro p q hupdate
    obtain ⟨_, _, _, _, _, hupdates⟩ := ownUpdate_iff.mp hupdate
    exact hupdates.not_defers he
  unfold Written
  rw [accessAt_concat, waits_concat he, dropped_concat]
  constructor
  · rintro ⟨haccess, hwaits, hdropped⟩
    refine ⟨haccess.resolve_right fun hnow => hwaits (Or.inr hnow), fun h => hwaits (Or.inl h),
      fun h => hdropped (Or.inl h)⟩
  · rintro ⟨haccess, hwaits, hdropped⟩
    refine ⟨Or.inl haccess, ?_, ?_⟩
    · rintro (h | ⟨rfl, _⟩)
      · exact hwaits h
      · exact Nat.lt_irrefl _ haccess.lt_length
    · rintro (h | ⟨p, q, hupdate, _⟩)
      · exact hdropped h
      · exact hnone p q hupdate

/-- Any other event has the accesses written that wait, but for its own update. -/
theorem written_concat (he : ¬ e.Defers) :
    Written (es ++ [e]) n ↔ Written es n ∨
      Waits es n ∧ ¬ ∃ p q, OwnUpdate (es ++ [e]) p q es.length ∧ (n = p ∨ n = q) := by
  have hnow : ¬ (n = es.length ∧ e.IsAccess) := fun h => he (Or.inl h.2)
  unfold Written
  rw [accessAt_concat, dropped_concat, or_iff_left hnow, not_or]
  constructor
  · rintro ⟨haccess, _, hdropped, hown⟩
    by_cases hwaits : Waits es n
    · exact Or.inr ⟨hwaits, hown⟩
    · exact Or.inl ⟨haccess, hwaits, hdropped⟩
  · rintro (⟨haccess, hwaits, hdropped⟩ | ⟨hwaits, hown⟩)
    · refine ⟨haccess, not_waits_concat he, hdropped, ?_⟩
      rintro ⟨p, q, hupdate, rfl | rfl⟩
      · exact hwaits (ownUpdate_iff.mp hupdate).1.1
      · exact hwaits (ownUpdate_iff.mp hupdate).1.2.1
    · exact ⟨hwaits.1, not_waits_concat he, hwaits.not_dropped, hown⟩

/-- At the end every access that was not dropped has been written or waits. -/
theorem written_or_waits_iff : Written es n ∨ Waits es n ↔ AccessAt es n ∧ ¬ Dropped es n := by
  constructor
  · rintro (⟨haccess, _, hdropped⟩ | hwaits)
    · exact ⟨haccess, hdropped⟩
    · exact ⟨hwaits.1, hwaits.not_dropped⟩
  · rintro ⟨haccess, hdropped⟩
    by_cases hwaits : Waits es n
    · exact Or.inr hwaits
    · exact Or.inl ⟨haccess, hwaits, hdropped⟩

end Trace

end LockTrace
