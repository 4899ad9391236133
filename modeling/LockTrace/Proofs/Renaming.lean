import LockTrace.Proofs.Tallies
import Mathlib.Logic.Equiv.Defs

/-!
# Transactions under other numbers

The number of a transaction is handed on to what is written and reported about it, and nothing
else is made of it. So if a stack is unwound on which the transactions have other numbers, what
comes out is the same up to these numbers (`unwindOutputs_rename`, `unwound_rename`), as long as
the numbers handed out on the way are renamed alike.

Two runs of numbers that were handed out one after the other trade places under `swapRuns`.
-/

namespace LockTrace

/-! ### Renaming -/

def Txn.rename (f : Nat → Nat) (t : Txn) : Txn := { t with id := f t.id }

def Record.rename (f : Nat → Nat) : Record → Record
  | .access row => .access { row with txn := row.txn.map f }
  | .held row => .held { row with txn := f row.txn }
  | .txn row => .txn { row with id := f row.id }
  | r => r

def Inconsistency.rename (f : Nat → Nat) : Inconsistency → Inconsistency
  | .anchor fault lock time txn => .anchor fault lock time (f txn)
  | .danglingLock time txn => .danglingLock time (f txn)
  | i => i

def Remark.rename (f : Nat → Nat) : Remark → Remark
  | .suppressed txn => .suppressed (f txn)
  | .purged txn ctx time => .purged (f txn) ctx time
  | r => r

/-- The output with `f` applied to every number of a transaction in it. -/
def Output.rename (f : Nat → Nat) : Output → Output
  | .record r => .record (r.rename f)
  | .report i => .report (i.rename f)
  | .remark r => .remark (r.rename f)

namespace Txn

theorem rename_eq_self {f : Nat → Nat} {t : Txn} (h : f t.id = t.id) : t.rename f = t := by
  unfold rename
  rw [h]

theorem map_rename_eq_self {f : Nat → Nat} {s : List Txn} (h : ∀ t ∈ s, f t.id = t.id) :
    s.map (Txn.rename f) = s :=
  (List.map_congr_left fun t ht => rename_eq_self (h t ht)).trans (List.map_id' s)

theorem map_rename_of_inverse {f g : Nat → Nat} (h : ∀ i, g (f i) = i) (s : List Txn) :
    (s.map (Txn.rename f)).map (Txn.rename g) = s := by
  rw [List.map_map]
  refine (List.map_congr_left fun t _ => ?_).trans (List.map_id' s)
  exact rename_eq_self (f := g ∘ f) (h t.id)

end Txn

namespace Output

theorem rename_rename_of_inverse {f g : Nat → Nat} (h : ∀ i, g (f i) = i) (o : Output) :
    (o.rename f).rename g = o := by
  cases o with
  | record r => cases r <;> simp [rename, Record.rename, h, Function.comp_def]
  | report i => cases i <;> simp [rename, Inconsistency.rename, h]
  | remark r => cases r <;> simp [rename, Remark.rename, h]

theorem map_rename_of_inverse {f g : Nat → Nat} (h : ∀ i, g (f i) = i) (os : List Output) :
    (os.map (Output.rename f)).map (Output.rename g) = os := by
  rw [List.map_map]
  exact (List.map_congr_left fun o _ => rename_rename_of_inverse h o).trans (List.map_id' os)

variable (f : Nat → Nat)

theorem hasName_rename (name : String) (o : Output) :
    (o.rename f).hasName name = o.hasName name := by
  cases o with
  | record r => rfl
  | report i => cases i <;> rfl
  | remark r => rfl

theorem countP_hasName_rename (name : String) (os : List Output) :
    (os.map (Output.rename f)).countP (hasName name) = os.countP (hasName name) := by
  rw [List.countP_map]
  exact List.countP_congr fun o _ => by rw [Function.comp_apply, hasName_rename]

/-- Whatever the numbers are, as many outputs are rows of transactions, remarks that one was left
    out, and rows of what was held. -/
theorem closing_rename (os : List Output) (reopened : Nat) :
    Stats.closing (os.map (Output.rename f)) reopened = Stats.closing os reopened := by
  have hlength : ∀ {α : Type} (p : Output → Option α),
      (∀ o : Output, (p (o.rename f)).isSome = (p o).isSome) →
      ((os.map (Output.rename f)).filterMap p).length = (os.filterMap p).length := by
    intro α p hp
    rw [List.length_filterMap_eq_countP, List.length_filterMap_eq_countP, List.countP_map]
    exact List.countP_congr fun o _ => by rw [Function.comp_apply, hp]
  unfold Stats.closing
  rw [hlength txnRowId?, hlength suppressedId?, hlength heldRow?]
  · intro o
    cases o with
    | record r => cases r <;> rfl
    | report i => rfl
    | remark r => rfl
  · intro o
    cases o with
    | record r => rfl
    | report i => rfl
    | remark r => cases r <;> rfl
  · intro o
    cases o with
    | record r => cases r <;> rfl
    | report i => rfl
    | remark r => rfl

end Output

/-! ### Unwinding a stack under other numbers -/

namespace TxnStack

variable {f : Nat → Nat}

theorem countAnchored_rename (s : TxnStack) (key : Nat) (side : Side) :
    countAnchored (s.map (Txn.rename f)) key side = countAnchored s key side :=
  List.countP_map

theorem hasAnchor_rename {s : TxnStack} {key : Nat} {side : Side} :
    HasAnchor (s.map (Txn.rename f)) key side ↔ HasAnchor s key side := by
  rw [← countAnchored_pos_iff, countAnchored_rename, countAnchored_pos_iff]

theorem displaced_rename (s : TxnStack) (key : Nat) (side : Side) :
    displaced key side (s.map (Txn.rename f)) = displaced key side s := by
  induction s with
  | nil => rfl
  | cons top below ih =>
    rw [List.map_cons, displaced, displaced, ih]
    rfl

theorem dropAnchor_rename (s : TxnStack) (key : Nat) (side : Side) :
    dropAnchor (s.map (Txn.rename f)) key side = (dropAnchor s key side).map (Txn.rename f) :=
  List.filter_map

/-- The numbers handed out are `d` further on. -/
theorem unwound_rename {key : Nat} {side : Side} (time : UInt64) (purge : Bool) {next d : Nat}
    {s : TxnStack} (hf : ∀ i, next ≤ i → i < next + s.displaced key side → f i = i + d) :
    unwound key side time purge (next + d) (s.map (Txn.rename f)) =
      (s.unwound key side time purge next).map (Txn.rename f) := by
  induction s generalizing next with
  | nil => rfl
  | cons top below ih =>
    have hsame : (top.rename f).AnchoredAt key side ↔ top.AnchoredAt key side := Iff.rfl
    rw [List.map_cons, unwound, unwound]
    rw [displaced] at hf
    by_cases hanchor : top.AnchoredAt key side
    · rw [if_pos (hsame.mpr hanchor), if_pos hanchor]
      cases purge with
      | true => exact dropAnchor_rename below key .reader
      | false => rfl
    · rw [if_neg hanchor] at hf
      rw [if_neg fun h => hanchor (hsame.mp h), if_neg hanchor, List.map_cons, Nat.add_right_comm,
        ih fun i hlow hhigh => hf i (by omega) (by omega)]
      have htop : (top.rename f).reopened (next + d) time = (top.reopened next time).rename f := by
        unfold Txn.rename Txn.reopened Txn.opened
        rw [hf next (Nat.le_refl _) (by omega)]
      rw [htop]

end TxnStack

namespace LockStore

variable {locks locks' : LockStore} {f : Nat → Nat}

theorem heldOutputs_rename (txn : Nat) (time : UInt64) (seen : List Nat) {s : List Txn}
    (hs : ∀ t ∈ s, locks'.get? t.lock = locks.get? t.lock) :
    locks'.heldOutputs (f txn) time seen (s.map (Txn.rename f)) =
      (locks.heldOutputs txn time seen s).map (Output.rename f) := by
  induction s generalizing seen with
  | nil => rfl
  | cons t ts ih =>
    have hrest := fun seen => ih seen fun u hu => hs u (List.mem_cons_of_mem _ hu)
    have hlock : locks'.get? (t.rename f).lock = locks.get? t.lock := hs t List.mem_cons_self
    have hside : (t.rename f).side = t.side := rfl
    rw [List.map_cons]
    unfold heldOutputs
    rw [hlock, hside]
    cases locks.get? t.lock with
    | none => exact congrArg _ (hrest seen)
    | some lock =>
      simp only
      by_cases hheld : lock.isHeld
      · rw [if_pos hheld, if_pos hheld]
        cases lock.history with
        | nil => exact congrArg _ (hrest seen)
        | cons latest older =>
          cases lock.subLocks.id? t.side with
          | none => exact hrest seen
          | some id =>
            simp only
            by_cases hseen : id ∈ seen
            · rw [if_pos hseen, if_pos hseen]
              exact hrest seen
            · rw [if_neg hseen, if_neg hseen]
              exact congrArg _ (hrest (id :: seen))
      · rw [if_neg hheld, if_neg hheld]
        exact congrArg _ (hrest seen)

variable (skipEmpty : Bool) (key : Nat) (side : Side) (ctx : Int64) (time : UInt64) (purge : Bool)

theorem closeOutputs_rename {top : Txn} {below : TxnStack}
    (hs : ∀ t ∈ top :: below, locks'.get? t.lock = locks.get? t.lock) :
    locks'.closeOutputs skipEmpty time (top.rename f) (below.map (Txn.rename f)) =
      (locks.closeOutputs skipEmpty time top below).map (Output.rename f) := by
  have hheld := heldOutputs_rename (f := f) top.id time [] (s := (top :: below).reverse)
    fun t ht => hs t (List.mem_reverse.mp ht)
  rw [List.map_reverse, List.map_cons] at hheld
  have haccesses : (top.rename f).accesses = top.accesses := rfl
  have hid : (top.rename f).id = f top.id := rfl
  unfold closeOutputs
  rw [haccesses, hid, hheld]
  split
  · rfl
  · rfl

theorem mismatchOutputs_rename (top : Txn) (hkey : locks'.get? key = locks.get? key) :
    locks'.mismatchOutputs key time (top.rename f) =
      (locks.mismatchOutputs key time top).map (Output.rename f) := by
  have hlock : (top.rename f).lock = top.lock := rfl
  unfold mismatchOutputs describe
  rw [hlock, hkey]
  split
  · rfl
  · rfl

theorem purgeOutputs_rename (s : TxnStack) (hkey : locks'.get? key = locks.get? key) :
    locks'.purgeOutputs key ctx time (s.map (Txn.rename f)) =
      (locks.purgeOutputs key ctx time s).map (Output.rename f) := by
  unfold purgeOutputs describe
  rw [hkey, List.map_append, List.filter_map, List.filter_map, ← List.map_reverse, List.map_map,
    List.map_map, List.map_map, List.map_map]
  rfl

/-- What comes out of unwinding a stack depends on the locks of its transactions only, and on
    their numbers only by showing them. -/
theorem unwindOutputs_rename {s : TxnStack} (hkey : locks'.get? key = locks.get? key)
    (hs : ∀ t ∈ s, locks'.get? t.lock = locks.get? t.lock) :
    locks'.unwindOutputs skipEmpty key side ctx time purge (s.map (Txn.rename f)) =
      (locks.unwindOutputs skipEmpty key side ctx time purge s).map (Output.rename f) := by
  induction s with
  | nil => rfl
  | cons top below ih =>
    have hsame : (top.rename f).AnchoredAt key side ↔ top.AnchoredAt key side := Iff.rfl
    rw [List.map_cons, unwindOutputs, unwindOutputs, closeOutputs_rename skipEmpty time hs,
      List.map_append]
    congr 1
    by_cases hanchor : top.AnchoredAt key side
    · rw [if_pos (hsame.mpr hanchor), if_pos hanchor]
      cases purge with
      | true => exact purgeOutputs_rename key ctx time below hkey
      | false => rfl
    · rw [if_neg fun h => hanchor (hsame.mp h), if_neg hanchor, List.map_append,
        mismatchOutputs_rename key time top hkey,
        ih fun t ht => hs t (List.mem_cons_of_mem _ ht)]

end LockStore

/-! ### Numbers that are handed out later -/

/-- `f` leaves the numbers below `first` alone and moves those from there up to `last` by `d`. -/
structure Shifts (f : Nat → Nat) (d first last : Nat) : Prop where
  below : ∀ i, i < first → f i = i
  above : ∀ i, first ≤ i → i < last → f i = i + d

theorem Shifts.mono {f : Nat → Nat} {d first last last' : Nat} (h : Shifts f d first last)
    (hle : last' ≤ last) : Shifts f d first last' :=
  ⟨h.below, fun i hlow hhigh => h.above i hlow (Nat.lt_of_lt_of_le hhigh hle)⟩

theorem shifts_ite (d first last : Nat) :
    Shifts (fun i => if i < first then i else i + d) d first last where
  below _ h := if_pos h
  above _ h _ := if_neg (Nat.not_lt.mpr h)

/-! ### Trading places -/

/-- The `a` numbers from `n` on and the `b` numbers after them trade places. -/
def swapRuns (n a b : Nat) : Equiv.Perm Nat where
  toFun i := if i < n then i else if i < n + a then i + b else if i < n + a + b then i - a else i
  invFun i := if i < n then i else if i < n + b then i + a else if i < n + b + a then i - b else i
  left_inv i := by
    simp only
    split_ifs <;> omega
  right_inv i := by
    simp only
    split_ifs <;> omega

section SwapRuns

variable (n a b : Nat)

theorem swapRuns_apply (i : Nat) : swapRuns n a b i =
    if i < n then i else if i < n + a then i + b else if i < n + a + b then i - a else i := rfl

theorem swapRuns_symm : (swapRuns n a b).symm = swapRuns n b a := rfl

/-- Only numbers of the two runs have new places. -/
theorem swapRuns_eq_self {i : Nat} (h : i < n ∨ n + a + b ≤ i) : swapRuns n a b i = i := by
  rw [swapRuns_apply]
  split_ifs <;> omega

theorem shifts_swapRuns : Shifts (swapRuns n a b) b n (n + a) where
  below i h := by rw [swapRuns_apply, if_pos h]
  above i hlow hhigh := by rw [swapRuns_apply, if_neg (Nat.not_lt.mpr hlow), if_pos hhigh]

theorem shifts_swapRuns_symm : Shifts (swapRuns n a b).symm a n (n + b) := by
  rw [swapRuns_symm]
  exact shifts_swapRuns n b a

end SwapRuns

end LockTrace
