import LockTrace.Proofs.LiveLocks
import Mathlib.Data.List.Nodup

/-!
# What freeing a range removes

A store comes about by looking up locks, changing them and freeing ranges (`Call`). Freeing a
range is meant to remove the locks that an allocation of this range would contain (`Covers`). The
end of a range is not among its addresses, and it is never beyond the last address of all; so the
lock at the last address stays in a range that reaches it, and this is the only exception
(`inRange_iff_covers`). What is removed, counted and reported is settled by it, in whatever state
the store is (`freesLocks_after`).
-/

namespace LockTrace

/-! ### Changes of a lock -/

namespace Lock

/-- What is done to a lock while it is live. -/
inductive Change where
  | setFlags (flags : UInt32)
  | beginHold (p : Position)
  | endHold (side : Side)
  | popPosition
  | drain (side : Side)
deriving DecidableEq, Repr

def Change.apply : Change → Lock → Lock
  | setFlags flags, l => l.setFlags flags
  | beginHold p, l => l.beginHold p
  | endHold side, l => l.endHold side
  | popPosition, l => l.popPosition
  | drain side, l => l.drain side

theorem Change.persists_apply (c : Change) (l : Lock) : l.Persists (c.apply l) := by
  cases c with
  | setFlags flags => exact ⟨l.same_setFlags flags, rfl, rfl⟩
  | beginHold p => exact (l.persists_setCount p.side _).trans ⟨⟨rfl, rfl, rfl⟩, rfl, rfl⟩
  | endHold side => exact l.persists_setCount side _
  | popPosition => exact ⟨l.same_popPosition, rfl, rfl⟩
  | drain side => exact (l.persists_setCount side 0).trans ⟨⟨rfl, rfl, rfl⟩, rfl, rfl⟩

/-- The side on which a held lock is reported: the writer side if it has writers. -/
def heldSide (l : Lock) : Side := if 0 < l.writers then .writer else .reader

end Lock

namespace LockStore

/-! ### The stores that come about -/

/-- What is asked of a store. -/
inductive Call where
  /-- Look up the lock at an address, and create it if there is none. -/
  | locate (address : UInt64) (label : String) (placement : Placement)
  | change (key : Nat) (c : Lock.Change)
  | freeRange (base size time : UInt64)
deriving DecidableEq, Repr

/-- The store after a call. A lock of an unknown label is not created. -/
def apply (s : LockStore) : Call → LockStore
  | .locate address label placement =>
    match s.findOrCreate address label fun _ => placement with
    | .error _ => s
    | .ok found => found.store
  | .change key c => s.modify key c.apply
  | .freeRange base size time => (s.freeRange base size time).store

/-- The store after calls, from the empty one. -/
def after (calls : List Call) : LockStore := calls.foldl apply ∅

namespace Keyed

variable {s : LockStore}

theorem findOrCreate (h : s.Keyed) {address : UInt64} {label : String}
    {place : UInt64 → Placement} {found : Found}
    (hfound : s.findOrCreate address label place = .ok found) : found.store.Keyed := by
  rcases s.findOrCreate_cases address label place with
    ⟨key, _, heq⟩ | ⟨kind, hnew, _, heq⟩ | ⟨_, _, heq⟩
  · cases heq.symm.trans hfound
    exact h
  · cases heq.symm.trans hfound
    exact h.create hnew label kind _
  · cases heq.symm.trans hfound

theorem apply (h : s.Keyed) (c : Call) : (s.apply c).Keyed := by
  cases c with
  | locate address label placement =>
    simp only [LockStore.apply]
    split
    · exact h
    · next hfound => exact h.findOrCreate hfound
  | change key c => exact h.modify key fun lock => (c.persists_apply lock).address
  | freeRange base size time => exact h.freeRange base size time

theorem after (calls : List Call) : (LockStore.after calls).Keyed := by
  have hfold : ∀ (cs : List Call) (s : LockStore),
      s.Keyed → (cs.foldl LockStore.apply s).Keyed := by
    intro cs
    induction cs with
    | nil => exact fun _ h => h
    | cons c cs ih => exact fun s h => ih (s.apply c) (h.apply c)
  exact hfold calls ∅ .empty

/-- Walking over the addresses meets every live lock once. -/
theorem keyAt_perm (h : s.Keyed) :
    s.keyAt.entries.Perm (s.locks.entries.map fun e => (e.2.address, e.1)) := by
  have hnodup : s.keyAt.entries.Nodup := List.Nodup.of_map Prod.fst s.keyAt.nodup_keys
  have hnodup' : (s.locks.entries.map fun e => (e.2.address, e.1)).Nodup := by
    apply List.Nodup.of_map Prod.snd
    rw [List.map_map]
    exact s.locks.nodup_keys
  refine (List.perm_ext_iff_of_nodup hnodup hnodup').mpr ?_
  rintro ⟨address, key⟩
  constructor
  · intro hmem
    obtain ⟨lock, hget, rfl⟩ := (h.find_iff address key).mp (AscMap.mem_entries_iff.mp hmem)
    exact List.mem_map.mpr ⟨(key, lock), AscMap.mem_entries_iff.mpr hget, rfl⟩
  · intro hmem
    obtain ⟨⟨key', lock⟩, hlock, heq⟩ := List.mem_map.mp hmem
    cases heq
    exact AscMap.mem_entries_iff.mpr
      ((h.find_iff _ _).mpr ⟨lock, AscMap.mem_entries_iff.mp hlock, rfl⟩)

end Keyed

/-! ### Freeing -/

/-- The live locks whose addresses freeing a range reaches. -/
def reached (s : LockStore) (base size : UInt64) : List Lock :=
  s.locks.values.filter fun lock =>
    decide (Covers base size lock.address ∧ lock.address ≠ lastAddress)

/-- What freeing a range does to a store. The locks that are reached go, with their keys and
    addresses, and nothing else changes; they are counted, and each one that is held is reported
    once. -/
structure FreesLocks (s : LockStore) (base size time : UInt64) (freed : Freed) : Prop where
  get?_iff : ∀ key lock, freed.store.get? key = some lock ↔
    s.get? key = some lock ∧ ¬ (Covers base size lock.address ∧ lock.address ≠ lastAddress)
  find?_iff : ∀ address key, freed.store.find? address = some key ↔
    s.find? address = some key ∧ ¬ (Covers base size address ∧ address ≠ lastAddress)
  counters : freed.store.keys = s.keys ∧ freed.store.subLockIds = s.subLockIds
  count : freed.count = (s.reached base size).length
  reports : freed.reports.Perm (((s.reached base size).filter Lock.isHeld).map fun lock =>
    .heldLockFreed (lock.describe lock.heldSide) time base)

theorem filterMap_freedReport? (locks : List Lock) (time base : UInt64) :
    locks.filterMap (freedReport? · time base) =
      (locks.filter Lock.isHeld).map fun l => .heldLockFreed (l.describe l.heldSide) time base := by
  rw [← List.filterMap_eq_map, List.filterMap_filter]
  rfl

namespace Keyed

variable {s : LockStore}

theorem between_perm (h : s.Keyed) (base size : UInt64) :
    (s.keyAt.between base (rangeEnd base size)).Perm
      ((s.locks.entries.filter fun e =>
        decide (Covers base size e.2.address ∧ e.2.address ≠ lastAddress)).map
          fun e => (e.2.address, e.1)) := by
  have hrange : (fun e : UInt64 × Nat => decide (¬ e.1 < base ∧ e.1 < rangeEnd base size)) =
      fun e => decide (Covers base size e.1 ∧ e.1 ≠ lastAddress) := by
    funext e
    exact decide_eq_decide.mpr (inRange_iff_covers base size e.1)
  unfold AscMap.between
  rw [hrange]
  refine (h.keyAt_perm.filter _).trans ?_
  rw [List.filter_map]
  exact .refl _

theorem count_freeRange (h : s.Keyed) (base size time : UInt64) :
    (s.freeRange base size time).count = (s.reached base size).length := by
  have hlength := (h.between_perm base size).length_eq
  rw [List.length_map] at hlength
  unfold reached AscMap.values
  rw [List.filter_map, List.length_map]
  exact hlength

theorem reports_freeRange (h : s.Keyed) (base size time : UInt64) :
    (s.freeRange base size time).reports.Perm
      ((s.reached base size).filterMap (freedReport? · time base)) := by
  refine ((h.between_perm base size).filterMap _).trans ?_
  unfold reached AscMap.values
  rw [List.filterMap_map, List.filter_map, List.filterMap_map]
  -- The key of an entry finds its lock.
  refine .of_eq (List.filterMap_congr fun e he => ?_)
  have hget : s.get? e.1 = some e.2 := AscMap.mem_entries_iff.mp (List.mem_of_mem_filter he)
  simp only [Function.comp_apply, hget, Option.bind_some]

/-- Freeing does what it should in a store whose keys and addresses belong together. -/
theorem freesLocks (h : s.Keyed) (base size time : UInt64) :
    s.FreesLocks base size time (s.freeRange base size time) where
  get?_iff key lock := by
    rw [h.get?_freeRange, Option.filter_eq_some_iff, decide_eq_true_eq, inRange_iff_covers]
  find?_iff address key := by
    rw [find?_freeRange, ← inRange_iff_covers]
    split
    · next hin => exact iff_of_false (Option.some_ne_none key).symm fun hkey => hkey.2 hin
    · next hout => exact (and_iff_left hout).symm
  counters := ⟨s.keys_freeRange base size time, s.subLockIds_freeRange base size time⟩
  count := h.count_freeRange base size time
  reports := by
    have hperm := h.reports_freeRange base size time
    rwa [filterMap_freedReport?] at hperm

end Keyed

/-- Whatever was done before, freeing a range removes the locks that an allocation of this range
    contains, but for one at the last address of all. -/
theorem freesLocks_after (calls : List Call) (base size time : UInt64) :
    (after calls).FreesLocks base size time ((after calls).freeRange base size time) :=
  (Keyed.after calls).freesLocks base size time

/-- The lock at the last address stays when an allocation ends that reaches to it. -/
theorem not_forall_get?_freeRange_iff_covers :
    ¬ ∀ (calls : List Call) (base size time : UInt64) (key : Nat) (lock : Lock),
      ((after calls).freeRange base size time).store.get? key = some lock ↔
        (after calls).get? key = some lock ∧ ¬ Covers base size lock.address := by
  intro hall
  have hstays := (hall [.locate lastAddress "mutex" ⟨none, none⟩] 0xfffffffffffffff0 16 5 1
    (.create lastAddress (.writer 1) "mutex" none none)).mp (by decide)
  exact hstays.2 (by decide)

end LockStore

end LockTrace
