import LockTrace.Proofs.FreedRanges
import LockTrace.Proofs.LockRows
import Mathlib.Data.Set.Card

/-!
# Keys and numbers of locks

A look-up gives the key of a lock, whether the lock is there or has to be created, and a created
lock brings one number for each of its sides. This module is about what keys and numbers stand
for in any store that comes about (`LockStore.consistent_after`). The live locks, their keys and
their addresses belong together one to one. A key that was given for a new lock was never given
before, and once it finds nothing it finds nothing ever after, although another lock may live at
the same address by then. What a live lock is, its state left aside, is what it was when it was
created.

A look-up can fail, and is then as if it had not been made. Where a new lock lies is asked of the
caller, and the caller may do anything to find out (`LockStore.findOrCreateM`); a look-up that
fails has not asked.
-/

namespace LockTrace

namespace LockStore

/-! ### Looking up in place -/

section InPlace

variable {m : Type → Type} [Monad m]

/-- The look-up as it changes the store part by part. The place of a new lock is found out by an
    action, which can have effects of its own. -/
def findOrCreateM (address : UInt64) (label : String) (place : UInt64 → m Placement) :
    StateT LockStore m (Except Fatal (Nat × Bool)) := do
  let s ← get
  match s.find? address with
  | some key => return .ok (key, false)
  | none =>
    match LockKind.ofLabel? label with
    | none => return .error (.unknownLockType address label)
    | some kind =>
      let subLocks ← modifyGet fun s =>
        let (subLocks, ids) := SubLocks.assign kind s.subLockIds
        (subLocks, { s with subLockIds := ids })
      let placement ← place address
      let varName := (Lock.pseudoName? address).or placement.varName
      let key ← modifyGet fun s => (s.keys.next, { s with keys := s.keys.advance })
      let lock := Lock.create address subLocks label placement.allocation varName
      modifyThe LockStore fun s => { s with locks := s.locks.insert key lock }
      modifyThe LockStore fun s => { s with keyAt := s.keyAt.insert address key }
      return .ok (key, true)

/-- What is left of a look-up in place: the answer, and the store. -/
def outcome (s : LockStore) : Except Fatal Found → Except Fatal (Nat × Bool) × LockStore
  | .error cause => (.error cause, s)
  | .ok found => (.ok (found.key, found.new.isSome), found.store)

variable [LawfulMonad m]

/-- The action is run for a new lock alone, once and for its address. -/
theorem run_findOrCreateM (s : LockStore) (address : UInt64) (label : String)
    (place : UInt64 → m Placement) :
    (findOrCreateM address label place).run s =
      match s.find? address with
      | some key => pure (.ok (key, false), s)
      | none =>
        match LockKind.ofLabel? label with
        | none => pure (.error (.unknownLockType address label), s)
        | some kind => (fun placement => (.ok (s.keys.next, true),
            (s.create address label kind placement).store)) <$> place address := by
  unfold findOrCreateM
  rw [StateT.run_bind, StateT.run_get, pure_bind]
  cases s.find? address with
  | some key => simp
  | none =>
    cases LockKind.ofLabel? label with
    | none => simp
    | some kind => simp [create]

/-- With an action that only gives a place, the look-up in place is the look-up. -/
theorem run_findOrCreateM_pure (s : LockStore) (address : UInt64) (label : String)
    (place : UInt64 → Placement) :
    (findOrCreateM address label fun a => (pure (place a) : m Placement)).run s =
      pure (s.outcome (s.findOrCreate address label place)) := by
  rw [run_findOrCreateM]
  rcases s.findOrCreate_cases address label place with
    ⟨key, hfind, heq⟩ | ⟨kind, hfind, hkind, heq⟩ | ⟨hfind, hkind, heq⟩
  · rw [heq, hfind]
    rfl
  · rw [heq, hfind, hkind]
    exact map_pure _ _
  · rw [heq, hfind, hkind]
    rfl

end InPlace

/-! ### What a look-up gives -/

section Given

variable {s : LockStore} {address : UInt64} {label : String} {place : UInt64 → Placement}

/-- The key that is given is the one of the address from then on. -/
theorem find?_of_findOrCreate {found : Found} (h : s.findOrCreate address label place = .ok found) :
    found.store.find? address = some found.key ∧
      (found.new.isSome ↔ s.find? address = none) := by
  rcases s.findOrCreate_cases address label place with
    ⟨key, hfind, heq⟩ | ⟨kind, hfind, _, heq⟩ | ⟨_, _, heq⟩
  · cases heq.symm.trans h
    exact ⟨hfind, by simp [hfind]⟩
  · cases heq.symm.trans h
    exact ⟨by rw [find?_create, if_pos rfl]; rfl, iff_of_true rfl hfind⟩
  · cases heq.symm.trans h

theorem findOrCreate_eq_error_iff {cause : Fatal} :
    s.findOrCreate address label place = .error cause ↔
      s.find? address = none ∧ LockKind.ofLabel? label = none ∧
        cause = .unknownLockType address label := by
  rcases s.findOrCreate_cases address label place with
    ⟨key, hfind, heq⟩ | ⟨kind, hfind, hkind, heq⟩ | ⟨hfind, hkind, heq⟩
  · simp [heq, hfind]
  · simp [heq, hkind]
  · simp [heq, hfind, hkind, eq_comm]

theorem Keyed.exists_error_iff (h : s.Keyed) :
    (∃ cause, s.findOrCreate address label place = .error cause) ↔
      ¬ s.LiveAt address ∧ LockKind.ofLabel? label = none := by
  rw [← h.find?_eq_none_iff]
  constructor
  · rintro ⟨cause, herror⟩
    obtain ⟨hfind, hunknown, _⟩ := findOrCreate_eq_error_iff.mp herror
    exact ⟨hfind, hunknown⟩
  · rintro ⟨hfind, hunknown⟩
    exact ⟨_, findOrCreate_eq_error_iff.mpr ⟨hfind, hunknown, rfl⟩⟩

end Given

/-! ### One call -/

section Apply

variable {s : LockStore} {key : Nat} {lock' : Lock}

/-- Only a new lock changes the store. -/
theorem apply_locate_cases (s : LockStore) (address : UInt64) (label : String)
    (placement : Placement) :
    s.apply (.locate address label placement) = s ∨
      ∃ kind, s.apply (.locate address label placement) =
        (s.create address label kind placement).store := by
  simp only [apply]
  rcases s.findOrCreate_cases address label fun _ => placement with
    ⟨_, _, heq⟩ | ⟨kind, _, _, heq⟩ | ⟨_, _, heq⟩
  · rw [heq]
    exact Or.inl rfl
  · rw [heq]
    exact Or.inr ⟨kind, rfl⟩
  · rw [heq]
    exact Or.inl rfl

/-- What a function says of other addresses does not matter. -/
theorem apply_locate (s : LockStore) (address : UInt64) (label : String)
    (place : UInt64 → Placement) :
    s.apply (.locate address label (place address)) =
      (s.outcome (s.findOrCreate address label place)).2 := by
  simp only [apply, findOrCreate]
  cases s.find? address with
  | some key => rfl
  | none =>
    cases LockKind.ofLabel? label with
    | none => rfl
    | some kind => rfl

theorem keys_le_apply (s : LockStore) (c : Call) : s.keys.next ≤ (s.apply c).keys.next := by
  cases c with
  | locate address label placement =>
    rcases s.apply_locate_cases address label placement with heq | ⟨kind, heq⟩
    · rw [heq]
    · rw [heq, keys_create]
      exact Nat.le_succ _
  | change key c => exact Nat.le_refl _
  | freeRange base size time => exact Nat.le_of_eq (s.keys_freeRange base size time ▸ rfl)

/-- What a key finds that was there before a call was found by it before the call. -/
theorem exists_persists_of_get?_apply (hissued : key < s.keys.next) {c : Call}
    (hget : (s.apply c).get? key = some lock') :
    ∃ lock, s.get? key = some lock ∧ lock.Persists lock' := by
  cases c with
  | locate address label placement =>
    rcases s.apply_locate_cases address label placement with heq | ⟨kind, heq⟩
    · rw [heq] at hget
      exact ⟨lock', hget, .refl lock'⟩
    · -- The new lock has the next key, which was not given out before.
      rw [heq, get?_create, if_neg (Nat.ne_of_gt hissued)] at hget
      exact ⟨lock', hget, .refl lock'⟩
  | change k c =>
    simp only [apply] at hget
    rw [get?_modify] at hget
    split at hget
    · obtain ⟨lock, hlock, rfl⟩ := Option.map_eq_some_iff.mp hget
      exact ⟨lock, hlock, c.persists_apply lock⟩
    · exact ⟨lock', hget, .refl lock'⟩
  | freeRange base size time => exact ⟨lock', get?_of_get?_freeRange hget, .refl lock'⟩

/-- Calls do not bring a lock back, and do not make another lock of one that stays. -/
theorem exists_persists_of_get?_foldl (hissued : key < s.keys.next) {cs : List Call}
    (hget : (cs.foldl apply s).get? key = some lock') :
    ∃ lock, s.get? key = some lock ∧ lock.Persists lock' := by
  induction cs generalizing s with
  | nil => exact ⟨lock', hget, .refl lock'⟩
  | cons c cs ih =>
    have hissued' : key < (s.apply c).keys.next := Nat.lt_of_lt_of_le hissued (s.keys_le_apply c)
    obtain ⟨middle, hmiddle, hlater⟩ := ih hissued' hget
    obtain ⟨lock, hlock, hearlier⟩ := exists_persists_of_get?_apply hissued hmiddle
    exact ⟨lock, hlock, hearlier.trans hlater⟩

/-- A key that was given out and finds nothing finds nothing after more calls. -/
theorem get?_foldl_eq_none (hissued : key < s.keys.next) (hnone : s.get? key = none)
    (cs : List Call) : (cs.foldl apply s).get? key = none := by
  rw [Option.eq_none_iff_forall_ne_some]
  intro lock' hget
  obtain ⟨lock, hlock, _⟩ := exists_persists_of_get?_foldl hissued hget
  rw [hnone] at hlock
  cases hlock

end Apply

theorem after_append (calls more : List Call) :
    after (calls ++ more) = more.foldl apply (after calls) :=
  List.foldl_append

/-! ### What calls give back -/

/-- What a call gives back, if it is a look-up that does not fail. -/
def reply? (s : LockStore) : Call → Option Found
  | .locate address label placement => (s.findOrCreate address label fun _ => placement).toOption
  | .change .. => none
  | .freeRange .. => none

/-- What calls give back, in their order. -/
def repliesFrom (s : LockStore) : List Call → List Found
  | [] => []
  | c :: cs => (s.reply? c).toList ++ (s.apply c).repliesFrom cs

def replies (calls : List Call) : List Found := repliesFrom ∅ calls

/-- The locks that were created, in the order in which they were. -/
def created (fs : List Found) : List Lock := fs.filterMap Found.new

/-- The numbers of all sides of locks. -/
def numbers (ls : List Lock) : List Nat := ls.flatMap fun l => l.subLocks.sides.map Prod.snd

theorem numbers_created_append (fs : List Found) (found : Found) :
    numbers (created (fs ++ [found])) = numbers (created fs) ++ numbers found.new.toList := by
  unfold numbers created
  rw [List.filterMap_append, List.flatMap_append]
  cases hnew : found.new with
  | none => simp [hnew]
  | some lock => simp [hnew]

theorem numbers_create (s : LockStore) (address : UInt64) (label : String) (kind : LockKind)
    (placement : Placement) : numbers (s.create address label kind placement).new.toList =
      (SubLocks.assign kind s.subLockIds).1.sides.map Prod.snd :=
  List.append_nil _

/-- What the replies so far tell about the store: keys were given out in turn, the sides of the
    locks that were created are numbered without a gap, and each live lock is one of these. -/
structure Recorded (s : LockStore) (fs : List Found) : Prop where
  keyed : s.Keyed
  issued : ∀ found ∈ fs, found.key < s.keys.next
  fresh : fs.Pairwise fun earlier later => later.new.isSome → later.key ≠ earlier.key
  positive : 0 < s.subLockIds.next
  numbers : (numbers (created fs)).Perm (List.range' 1 s.subLockCount)
  origin : ∀ key lock, s.get? key = some lock →
    ∃ found ∈ fs, found.key = key ∧ ∃ new, found.new = some new ∧ new.Persists lock

namespace Recorded

variable {s s' : LockStore} {fs : List Found}

theorem empty : Recorded ∅ [] where
  keyed := .empty
  issued found hfound := by cases hfound
  fresh := .nil
  positive := Nat.one_pos
  numbers := .refl []
  origin key lock hget := by cases hget

/-- Nothing is given back and nothing is given out, and live locks stay what they are or go. -/
theorem keep (h : s.Recorded fs) (hkeyed : s'.Keyed) (hkeys : s'.keys = s.keys)
    (hids : s'.subLockIds = s.subLockIds)
    (hlocks : ∀ key lock', s'.get? key = some lock' →
      ∃ lock, s.get? key = some lock ∧ lock.Persists lock') : s'.Recorded fs where
  keyed := hkeyed
  issued found hfound := hkeys ▸ h.issued found hfound
  fresh := h.fresh
  positive := hids ▸ h.positive
  numbers := by
    unfold subLockCount
    rw [hids]
    exact h.numbers
  origin key lock' hget' := by
    obtain ⟨lock, hget, hpersists⟩ := hlocks key lock' hget'
    obtain ⟨found, hfound, hkey, new, hnew, hnewLock⟩ := h.origin key lock hget
    exact ⟨found, hfound, hkey, new, hnew, hnewLock.trans hpersists⟩

/-- The key of a lock that is there is given once more. -/
theorem found (h : s.Recorded fs) {address : UInt64} {key : Nat}
    (hfind : s.find? address = some key) : s.Recorded (fs ++ [⟨key, s, none⟩]) where
  keyed := h.keyed
  issued found hfound := by
    rcases List.mem_append.mp hfound with hfound | hfound
    · exact h.issued found hfound
    · rw [List.mem_singleton.mp hfound]
      obtain ⟨lock, hget, _⟩ := (h.keyed.find_iff address key).mp hfind
      exact h.keyed.fresh key lock hget
  fresh := by
    refine List.pairwise_append.mpr ⟨h.fresh, List.pairwise_singleton _ _, ?_⟩
    intro earlier _ later hlater hnew
    rw [List.mem_singleton.mp hlater] at hnew
    cases hnew
  positive := h.positive
  numbers := by
    rw [numbers_created_append]
    exact (List.append_nil _).symm ▸ h.numbers
  origin key lock hget := by
    obtain ⟨found, hfound, hrest⟩ := h.origin key lock hget
    exact ⟨found, List.mem_append_left _ hfound, hrest⟩

/-- A new lock takes the next key and the next numbers. -/
theorem create (h : s.Recorded fs) {address : UInt64} (hnew : s.find? address = none)
    (label : String) (kind : LockKind) (placement : Placement) :
    (s.create address label kind placement).store.Recorded
      (fs ++ [s.create address label kind placement]) where
  keyed := h.keyed.create hnew label kind placement
  issued found hfound := by
    rw [keys_create]
    rcases List.mem_append.mp hfound with hfound | hfound
    · exact Nat.lt_succ_of_lt (h.issued found hfound)
    · rw [List.mem_singleton.mp hfound]
      exact Nat.lt_succ_self _
  fresh := by
    refine List.pairwise_append.mpr ⟨h.fresh, List.pairwise_singleton _ _, ?_⟩
    intro earlier hearlier later hlater _
    rw [List.mem_singleton.mp hlater]
    exact Nat.ne_of_gt (h.issued earlier hearlier)
  positive := Nat.lt_of_lt_of_le h.positive (SubLocks.next_le_assign kind s.subLockIds)
  numbers := by
    rw [numbers_created_append, numbers_create]
    exact (h.numbers.append_right _).trans (SubLocks.range'_sides_assign_perm kind h.positive)
  origin key lock hget := by
    rw [get?_create] at hget
    split at hget
    · next hkey =>
      exact ⟨_, List.mem_append_right _ List.mem_cons_self, hkey, _, rfl,
        Option.some.inj hget ▸ .refl _⟩
    · obtain ⟨found, hfound, hrest⟩ := h.origin key lock hget
      exact ⟨found, List.mem_append_left _ hfound, hrest⟩

theorem apply (h : s.Recorded fs) (c : Call) :
    (s.apply c).Recorded (fs ++ (s.reply? c).toList) := by
  cases c with
  | locate address label placement =>
    simp only [LockStore.apply, reply?]
    rcases s.findOrCreate_cases address label fun _ => placement with
      ⟨key, hfind, heq⟩ | ⟨kind, hfind, _, heq⟩ | ⟨_, _, heq⟩
    · rw [heq]
      exact h.found hfind
    · rw [heq]
      exact h.create hfind label kind placement
    · rw [heq]
      exact (List.append_nil fs).symm ▸ h
  | change key c =>
    -- No key is given out, so the keys of all live locks were there before.
    rw [reply?, Option.toList_none, List.append_nil]
    exact h.keep (h.keyed.apply _) rfl rfl fun k lock' hget =>
      exists_persists_of_get?_apply ((h.keyed.apply (.change key c)).fresh k lock' hget) hget
  | freeRange base size time =>
    rw [reply?, Option.toList_none, List.append_nil]
    exact h.keep (h.keyed.apply _) (s.keys_freeRange base size time)
      (s.subLockIds_freeRange base size time)
      fun _ lock' hget => ⟨lock', get?_of_get?_freeRange hget, .refl lock'⟩

theorem run (h : s.Recorded fs) (cs : List Call) :
    (cs.foldl LockStore.apply s).Recorded (fs ++ s.repliesFrom cs) := by
  induction cs generalizing s fs with
  | nil =>
    rw [repliesFrom, List.append_nil]
    exact h
  | cons c cs ih =>
    rw [repliesFrom, ← List.append_assoc]
    exact ih (h.apply c)

theorem after (calls : List Call) : (LockStore.after calls).Recorded (replies calls) :=
  Recorded.empty.run calls

end Recorded

/-! ### Locks, keys and addresses -/

def liveKeys (s : LockStore) : Set Nat := {key | (s.get? key).isSome}

def liveLocks (s : LockStore) : Set Lock := {lock | ∃ key, s.get? key = some lock}

/-- The addresses that lead to a key. -/
def liveAddresses (s : LockStore) : Set UInt64 := {address | (s.find? address).isSome}

/-- Keys, live locks and addresses belong together one to one, and `size` tells how many they
    are. -/
structure OneToOne (s : LockStore) : Prop where
  find?_iff : ∀ address key, s.find? address = some key ↔
    ∃ lock, s.get? key = some lock ∧ lock.address = address
  keys : Set.BijOn s.get? s.liveKeys (some '' s.liveLocks)
  addresses : Set.BijOn Lock.address s.liveLocks s.liveAddresses
  size : s.liveKeys.encard = s.size ∧ s.liveLocks.encard = s.size ∧
    s.liveAddresses.encard = s.size

namespace Keyed

variable {s : LockStore}

theorem bijOn_get? (h : s.Keyed) : Set.BijOn s.get? s.liveKeys (some '' s.liveLocks) := by
  refine ⟨?_, ?_, ?_⟩
  · intro key hkey
    obtain ⟨lock, hget⟩ := Option.isSome_iff_exists.mp hkey
    exact ⟨lock, ⟨key, hget⟩, hget.symm⟩
  · intro key hkey key' hkey' heq
    obtain ⟨lock, hget⟩ := Option.isSome_iff_exists.mp hkey
    exact h.key_unique hget (heq ▸ hget) rfl
  · rintro _ ⟨lock, ⟨key, hget⟩, rfl⟩
    exact ⟨key, Option.isSome_iff_exists.mpr ⟨lock, hget⟩, hget⟩

theorem bijOn_address (h : s.Keyed) : Set.BijOn Lock.address s.liveLocks s.liveAddresses := by
  refine ⟨?_, ?_, ?_⟩
  · rintro lock ⟨key, hget⟩
    exact Option.isSome_iff_exists.mpr ⟨key, (h.find_iff lock.address key).mpr ⟨lock, hget, rfl⟩⟩
  · rintro lock ⟨key, hget⟩ lock' ⟨key', hget'⟩ haddr
    rw [h.key_unique hget hget' haddr, hget'] at hget
    exact (Option.some.inj hget).symm
  · intro address haddr
    obtain ⟨key, hfind⟩ := Option.isSome_iff_exists.mp haddr
    obtain ⟨lock, hget, rfl⟩ := (h.find_iff address key).mp hfind
    exact ⟨lock, ⟨key, hget⟩, rfl⟩

theorem encard_liveKeys (s : LockStore) : s.liveKeys.encard = s.size := by
  have hkeys : s.liveKeys = ↑s.locks.keys.toFinset := by
    ext key
    rw [List.coe_toFinset, Set.mem_ofPred_eq, AscMap.mem_keys_iff]
    exact Option.isSome_iff_exists
  rw [hkeys, Set.encard_coe_eq_coe_finsetCard, List.toFinset_card_of_nodup s.locks.nodup_keys]
  unfold AscMap.keys
  rw [List.length_map]
  rfl

theorem oneToOne (h : s.Keyed) : s.OneToOne where
  find?_iff := h.find_iff
  keys := h.bijOn_get?
  addresses := h.bijOn_address
  size := by
    have hkeys := encard_liveKeys s
    have hlocks : s.liveLocks.encard = s.size := by
      rw [← (Option.some_injective Lock).encard_image, ← h.bijOn_get?.image_eq,
        h.bijOn_get?.injOn.encard_image, hkeys]
    have haddresses : s.liveAddresses.encard = s.size := by
      rw [← h.bijOn_address.image_eq, h.bijOn_address.injOn.encard_image, hlocks]
    exact ⟨hkeys, hlocks, haddresses⟩

end Keyed

/-! ### Whatever calls are made -/

/-- What holds of a store after calls, and of what they gave back. -/
structure Consistent (calls : List Call) : Prop where
  oneToOne : (after calls).OneToOne
  /-- A look-up that does not fail gives the key of the address, and tells whether it is new. -/
  given : ∀ address label place found,
    (after calls).findOrCreate address label place = .ok found →
      found.store.find? address = some found.key ∧
        (found.new.isSome ↔ (after calls).find? address = none)
  /-- Whatever function says where locks lie, a look-up is one more call. -/
  locate : ∀ address label place, after (calls ++ [.locate address label (place address)]) =
    ((after calls).outcome ((after calls).findOrCreate address label place)).2
  /-- A key that comes with a new lock is none that was given before. -/
  fresh : (replies calls).Pairwise fun earlier later =>
    later.new.isSome → later.key ≠ earlier.key
  /-- A key that finds nothing any more never finds anything, and no address leads to it. -/
  gone : ∀ found ∈ replies calls, (after calls).get? found.key = none → ∀ more,
    (after (calls ++ more)).get? found.key = none ∧
      ∀ address, (after (calls ++ more)).find? address ≠ some found.key
  /-- The sides of all locks, of those that are live and those that are gone, have numbers of
      their own. -/
  distinct : (numbers (created (replies calls))).Nodup
  mem_numbers_iff : ∀ id, id ∈ numbers (created (replies calls)) ↔
    1 ≤ id ∧ id ≤ (after calls).subLockCount
  /-- Each live lock is one of those that were created, with the key that was given for it. -/
  origin : ∀ key lock, (after calls).get? key = some lock →
    ∃ found ∈ replies calls, found.key = key ∧ ∃ new, found.new = some new ∧ new.Persists lock
  /-- Between two times at which a key finds a lock, the lock has only changed its state. -/
  persists : ∀ more key lock lock', (after calls).get? key = some lock →
    (after (calls ++ more)).get? key = some lock' → lock.Persists lock'
  /-- A look-up fails if it would have to create a lock of a type that is not known. -/
  fails_iff : ∀ address label place,
    (∃ cause, (after calls).findOrCreate address label place = .error cause) ↔
      ¬ (after calls).LiveAt address ∧ LockKind.ofLabel? label = none
  /-- The look-up in place gives and leaves what the look-up does. -/
  inPlace : ∀ {m : Type → Type} [Monad m] [LawfulMonad m] address label place,
    (findOrCreateM address label fun a => (pure (place a) : m Placement)).run (after calls) =
      pure ((after calls).outcome ((after calls).findOrCreate address label place))
  /-- A look-up that fails leaves the store as it is, and the action that finds a place is not
      run. -/
  failing : ∀ {m : Type → Type} [Monad m] [LawfulMonad m] address label
    (place : UInt64 → m Placement),
    ¬ (after calls).LiveAt address → LockKind.ofLabel? label = none →
      (findOrCreateM address label place).run (after calls) =
        pure (.error (.unknownLockType address label), after calls)

/-- Whatever calls were made, keys and numbers stand for what they were given out for. -/
theorem consistent_after (calls : List Call) : Consistent calls where
  oneToOne := (Keyed.after calls).oneToOne
  given _ _ _ _ hfound := find?_of_findOrCreate hfound
  locate address label place :=
    (after_append calls _).trans ((after calls).apply_locate address label place)
  fresh := (Recorded.after calls).fresh
  gone found hfound hnone more := by
    have hissued := (Recorded.after calls).issued found hfound
    have hgone : (after (calls ++ more)).get? found.key = none :=
      after_append calls more ▸ get?_foldl_eq_none hissued hnone more
    refine ⟨hgone, fun address hfind => ?_⟩
    obtain ⟨lock, hget, _⟩ := ((Keyed.after (calls ++ more)).find_iff address found.key).mp hfind
    rw [hgone] at hget
    cases hget
  distinct := (Recorded.after calls).numbers.nodup_iff.mpr List.nodup_range'
  mem_numbers_iff id := by
    rw [(Recorded.after calls).numbers.mem_iff, List.mem_range'_1]
    omega
  origin := (Recorded.after calls).origin
  persists more key lock lock' hget hget' := by
    rw [after_append] at hget'
    have hissued := (Keyed.after calls).fresh key lock hget
    obtain ⟨before, hbefore, hpersists⟩ := exists_persists_of_get?_foldl hissued hget'
    rw [hget] at hbefore
    cases hbefore
    exact hpersists
  fails_iff _ _ _ := (Keyed.after calls).exists_error_iff
  inPlace address label place := run_findOrCreateM_pure _ address label place
  failing address label place hfree hunknown := by
    rw [run_findOrCreateM, ((Keyed.after calls).find?_eq_none_iff address).mpr hfree, hunknown]

/-- A mutex is held and asked for again until its memory is freed. After that a lock of an unknown
    type is asked for at its address, and then a lock with two sides. -/
def reusedAddress : List Call :=
  [.locate 0x100 "mutex" ⟨some 1, none⟩,
   .change 1 (.beginHold ⟨⟨1, Site.unknown, 0, .none⟩, .writer⟩),
   .locate 0x100 "rwlock_t" ⟨none, none⟩,
   .freeRange 0x100 64 2,
   .locate 0x100 "seqlock_t" ⟨none, none⟩,
   .locate 0x100 "rwlock_t" ⟨none, none⟩]

example : (replies reusedAddress).map (fun found => (found.key, found.new.isSome)) =
    [(1, true), (1, false), (2, true)] := by decide

example : numbers (created (replies reusedAddress)) = [1, 3, 2] := by decide

end LockStore

end LockTrace
