import LockTrace.Lock.Store
import LockTrace.Proofs.AscMap

/-!
# Which locks are live

What changing, creating and freeing locks does to look-ups by key and by address, and in which
ways a look-up that may create a lock can end (`LockStore.findOrCreate_cases`). In a store that
is `Keyed`, keys and addresses of the live locks belong together one to one and every key was
handed out before; the three changes keep it so. Freeing a range removes exactly the locks at its
addresses (`Keyed.get?_freeRange`), and these lie in the allocation that is freed
(`contains_of_inRange`).
-/

namespace LockTrace

/-! ### A lock in another state -/

namespace Lock

/-- The same lock in another state: address, place, kind and numbers never change. -/
structure Same (l l' : Lock) : Prop where
  address : l'.address = l.address
  subLocks : l'.subLocks = l.subLocks
  allocation : l'.allocation = l.allocation

theorem Same.kind {l l' : Lock} (h : l.Same l') : l'.kind = l.kind :=
  congrArg SubLocks.kind h.subLocks

theorem Same.refl (l : Lock) : l.Same l := ⟨rfl, rfl, rfl⟩

theorem Same.trans {l l' l'' : Lock} (h : l.Same l') (h' : l'.Same l'') : l.Same l'' :=
  ⟨h'.address.trans h.address, h'.subLocks.trans h.subLocks,
    h'.allocation.trans h.allocation⟩

theorem same_setFlags (l : Lock) (flags : UInt32) : l.Same (l.setFlags flags) := ⟨rfl, rfl, rfl⟩

theorem same_setCount (l : Lock) (side : Side) (n : Nat) : l.Same (l.setCount side n) := by
  cases side <;> exact ⟨rfl, rfl, rfl⟩

theorem same_beginHold (l : Lock) (p : Position) : l.Same (l.beginHold p) :=
  (l.same_setCount p.side _).trans ⟨rfl, rfl, rfl⟩

theorem same_popPosition (l : Lock) : l.Same l.popPosition := ⟨rfl, rfl, rfl⟩

theorem same_endHold (l : Lock) (side : Side) : l.Same (l.endHold side) := l.same_setCount side _

theorem same_drain (l : Lock) (side : Side) : l.Same (l.drain side) :=
  (l.same_setCount side 0).trans ⟨rfl, rfl, rfl⟩

/-- What a lock is, apart from its state: address, kind and numbers of its sides, owner, label
    and name do not change. -/
structure Persists (l l' : Lock) : Prop extends l.Same l' where
  label : l'.label = l.label
  varName : l'.varName = l.varName

theorem Persists.refl (l : Lock) : l.Persists l := ⟨.refl l, rfl, rfl⟩

theorem Persists.trans {l l' l'' : Lock} (h : l.Persists l') (h' : l'.Persists l'') :
    l.Persists l'' :=
  ⟨h.toSame.trans h'.toSame, h'.label.trans h.label, h'.varName.trans h.varName⟩

theorem persists_setCount (l : Lock) (side : Side) (n : Nat) : l.Persists (l.setCount side n) := by
  cases side <;> exact ⟨⟨rfl, rfl, rfl⟩, rfl, rfl⟩

end Lock

namespace LockStore

/-! ### Changing a lock -/

theorem get?_modify (s : LockStore) (key k : Nat) (f : Lock → Lock) :
    (s.modify key f).get? k = if key = k then (s.get? k).map f else s.get? k :=
  AscMap.get?_modify s.locks key k f

theorem get?_modify_of_ne {key k : Nat} (hk : k ≠ key) (s : LockStore) (f : Lock → Lock) :
    (s.modify key f).get? k = s.get? k := by
  rw [get?_modify, if_neg (Ne.symm hk)]

theorem get?_modify_self {s : LockStore} {key : Nat} {lock : Lock} (f : Lock → Lock)
    (h : s.get? key = some lock) : (s.modify key f).get? key = some (f lock) := by
  rw [get?_modify, if_pos rfl, h]
  rfl

/-- A lock that was changed is the same in another state, if no change is but of the state. -/
theorem exists_same_of_get?_modify {s : LockStore} {key k : Nat} {f : Lock → Lock} {lock' : Lock}
    (hf : ∀ lock : Lock, lock.Same (f lock)) (h : (s.modify key f).get? k = some lock') :
    ∃ lock, s.get? k = some lock ∧ lock.Same lock' := by
  rw [get?_modify] at h
  split at h
  · obtain ⟨lock, hget, rfl⟩ := Option.map_eq_some_iff.mp h
    exact ⟨lock, hget, hf lock⟩
  · exact ⟨lock', h, .refl lock'⟩

theorem modify_id (s : LockStore) (key : Nat) : s.modify key id = s := by
  unfold modify
  rw [AscMap.modify_id]

theorem modify_modify (s : LockStore) (key : Nat) (f g : Lock → Lock) :
    (s.modify key f).modify key g = s.modify key (g ∘ f) := by
  unfold modify
  rw [AscMap.modify_modify]

theorem modify_comm (s : LockStore) {key key' : Nat} (f g : Lock → Lock) (hne : key ≠ key') :
    (s.modify key f).modify key' g = (s.modify key' g).modify key f := by
  unfold modify
  rw [AscMap.modify_comm _ _ _ hne]

@[simp] theorem find?_modify (s : LockStore) (key : Nat) (f : Lock → Lock) (a : UInt64) :
    (s.modify key f).find? a = s.find? a := rfl

/-! ### Looking up a lock -/

/-- A look-up finds the lock, creates it, or fails since its label is not known. -/
theorem findOrCreate_cases (s : LockStore) (address : UInt64) (label : String)
    (place : UInt64 → Placement) :
    (∃ key, s.find? address = some key ∧
      s.findOrCreate address label place = .ok ⟨key, s, none⟩) ∨
    (∃ kind, s.find? address = none ∧ LockKind.ofLabel? label = some kind ∧
      s.findOrCreate address label place = .ok (s.create address label kind (place address))) ∨
    (s.find? address = none ∧ LockKind.ofLabel? label = none ∧
      s.findOrCreate address label place = .error (.unknownLockType address label)) := by
  unfold findOrCreate
  cases hfind : s.find? address with
  | some key => exact Or.inl ⟨key, rfl, rfl⟩
  | none =>
    cases hlabel : LockKind.ofLabel? label with
    | some kind => exact Or.inr (Or.inl ⟨kind, rfl, rfl, rfl⟩)
    | none => exact Or.inr (Or.inr ⟨rfl, rfl, rfl⟩)

/-! ### Creating a lock -/

def newLock (s : LockStore) (address : UInt64) (label : String) (kind : LockKind)
    (placement : Placement) : Lock :=
  Lock.create address (SubLocks.assign kind s.subLockIds).1 label placement.allocation
    ((Lock.pseudoName? address).or placement.varName)

section Create

variable (s : LockStore) (address : UInt64) (label : String) (kind : LockKind)
  (placement : Placement)

@[simp] theorem keys_create :
    (s.create address label kind placement).store.keys = s.keys.advance := rfl

theorem get?_create (k : Nat) :
    (s.create address label kind placement).store.get? k =
      if s.keys.next = k then some (s.newLock address label kind placement) else s.get? k :=
  AscMap.get?_insert s.locks _ k _

theorem find?_create (a : UInt64) :
    (s.create address label kind placement).store.find? a =
      if address = a then some s.keys.next else s.find? a :=
  AscMap.get?_insert s.keyAt address a _

@[simp] theorem kind_newLock : (s.newLock address label kind placement).kind = kind :=
  SubLocks.kind_assign kind s.subLockIds

@[simp] theorem count_newLock (side : Side) :
    (s.newLock address label kind placement).count side = 0 := by
  cases side <;> rfl

end Create

/-! ### Freeing a range -/

/-- The range of addresses whose locks go when `size` addresses from `base` are freed. -/
def InRange (base size address : UInt64) : Prop :=
  ¬ address < base ∧ address < rangeEnd base size

instance (base size address : UInt64) : Decidable (InRange base size address) :=
  inferInstanceAs (Decidable (_ ∧ _))

theorem toNat_rangeEnd (base size : UInt64) :
    (rangeEnd base size).toNat = min (base.toNat + size.toNat) (UInt64.size - 1) := by
  unfold rangeEnd
  rw [UInt64.toNat_ofNat_of_lt']
  have hpos : 0 < UInt64.size := by decide
  omega

/-- Whether an address is one of `size` addresses from `base`, told as an allocation tells it. -/
def Covers (base size address : UInt64) : Prop := base ≤ address ∧ address - base < size

instance (base size address : UInt64) : Decidable (Covers base size address) :=
  inferInstanceAs (Decidable (_ ∧ _))

def lastAddress : UInt64 := 0xffffffffffffffff

/-- The range from which locks are removed lacks the last address of all. -/
theorem inRange_iff_covers (base size address : UInt64) :
    InRange base size address ↔ Covers base size address ∧ address ≠ lastAddress := by
  have hlast : lastAddress.toNat = UInt64.size - 1 := rfl
  have hsize : address.toNat < UInt64.size := address.toNat_lt
  constructor
  · rintro ⟨hlow, hhigh⟩
    have hle : base ≤ address := UInt64.not_lt.mp hlow
    have hle' : base.toNat ≤ address.toNat := UInt64.le_iff_toNat_le.mp hle
    rw [UInt64.lt_iff_toNat_lt, toNat_rangeEnd] at hhigh
    refine ⟨⟨hle, ?_⟩, ?_⟩
    · rw [UInt64.lt_iff_toNat_lt, UInt64.toNat_sub_of_le _ _ hle]
      omega
    · rintro rfl
      omega
  · rintro ⟨⟨hle, hlt⟩, hne⟩
    rw [UInt64.lt_iff_toNat_lt, UInt64.toNat_sub_of_le _ _ hle] at hlt
    have hle' : base.toNat ≤ address.toNat := UInt64.le_iff_toNat_le.mp hle
    have hne' : address.toNat ≠ lastAddress.toNat := fun heq => hne (UInt64.toNat_inj.mp heq)
    refine ⟨UInt64.not_lt.mpr hle, ?_⟩
    rw [UInt64.lt_iff_toNat_lt, toNat_rangeEnd]
    omega

/-- The locks that go with an allocation lie in it. -/
theorem contains_of_inRange {base size address : UInt64} (h : InRange base size address) :
    base ≤ address ∧ address - base < size :=
  ((inRange_iff_covers base size address).mp h).1

def removeAll (s : LockStore) (doomed : List (UInt64 × Nat)) : LockStore :=
  doomed.foldl (fun s e => { s with locks := s.locks.erase e.2, keyAt := s.keyAt.erase e.1 }) s

theorem get?_removeAll (s : LockStore) (doomed : List (UInt64 × Nat)) (k : Nat) :
    (s.removeAll doomed).get? k = if k ∈ doomed.map Prod.snd then none else s.get? k := by
  induction doomed generalizing s with
  | nil => simp [removeAll]
  | cons e es ih =>
    refine (ih { s with locks := s.locks.erase e.2, keyAt := s.keyAt.erase e.1 }).trans ?_
    have herase : (s.locks.erase e.2).get? k = if e.2 = k then none else s.locks.get? k :=
      AscMap.get?_erase s.locks e.2 k
    simp only [get?, herase, List.map_cons, List.mem_cons]
    grind

theorem find?_removeAll (s : LockStore) (doomed : List (UInt64 × Nat)) (a : UInt64) :
    (s.removeAll doomed).find? a = if a ∈ doomed.map Prod.fst then none else s.find? a := by
  induction doomed generalizing s with
  | nil => simp [removeAll]
  | cons e es ih =>
    refine (ih { s with locks := s.locks.erase e.2, keyAt := s.keyAt.erase e.1 }).trans ?_
    have herase : (s.keyAt.erase e.1).get? a = if e.1 = a then none else s.keyAt.get? a :=
      AscMap.get?_erase s.keyAt e.1 a
    simp only [find?, herase, List.map_cons, List.mem_cons]
    grind

theorem keys_removeAll (s : LockStore) (doomed : List (UInt64 × Nat)) :
    (s.removeAll doomed).keys = s.keys ∧ (s.removeAll doomed).subLockIds = s.subLockIds := by
  induction doomed generalizing s with
  | nil => exact ⟨rfl, rfl⟩
  | cons e es ih => exact ih { s with locks := s.locks.erase e.2, keyAt := s.keyAt.erase e.1 }

theorem store_freeRange (s : LockStore) (base size time : UInt64) :
    (s.freeRange base size time).store =
      s.removeAll (s.keyAt.between base (rangeEnd base size)) := rfl

@[simp] theorem keys_freeRange (s : LockStore) (base size time : UInt64) :
    (s.freeRange base size time).store.keys = s.keys :=
  (s.keys_removeAll _).1

@[simp] theorem subLockIds_freeRange (s : LockStore) (base size time : UInt64) :
    (s.freeRange base size time).store.subLockIds = s.subLockIds :=
  (s.keys_removeAll _).2

theorem mem_between_iff (s : LockStore) (base size a : UInt64) (k : Nat) :
    (a, k) ∈ s.keyAt.between base (rangeEnd base size) ↔
      s.find? a = some k ∧ InRange base size a := by
  unfold AscMap.between find? InRange
  rw [List.mem_filter, AscMap.mem_entries_iff]
  simp

theorem get?_of_get?_freeRange {s : LockStore} {base size time : UInt64} {k : Nat} {lock : Lock}
    (h : (s.freeRange base size time).store.get? k = some lock) : s.get? k = some lock := by
  rw [store_freeRange, get?_removeAll] at h
  split at h
  · cases h
  · exact h

/-! ### Keys and addresses -/

/-- Some live lock is at the address. -/
def LiveAt (s : LockStore) (address : UInt64) : Prop :=
  ∃ key lock, s.get? key = some lock ∧ lock.address = address

/-- Keys and addresses of the live locks belong together one to one, and new keys are new. -/
structure Keyed (s : LockStore) : Prop where
  find_iff : ∀ a k, s.find? a = some k ↔ ∃ lock, s.get? k = some lock ∧ lock.address = a
  fresh : ∀ k lock, s.get? k = some lock → k < s.keys.next

namespace Keyed

theorem empty : Keyed ∅ where
  find_iff a k := by
    constructor
    · intro h
      cases h
    · rintro ⟨lock, h, _⟩
      cases h
  fresh k lock h := by cases h

variable {s : LockStore}

theorem find?_eq_none_iff (h : s.Keyed) (address : UInt64) :
    s.find? address = none ↔ ¬ s.LiveAt address := by
  rw [Option.eq_none_iff_forall_ne_some, LiveAt, not_exists]
  exact forall_congr' fun key => not_congr (h.find_iff address key)

theorem key_unique (h : s.Keyed) {k k' : Nat} {lock lock' : Lock} (hk : s.get? k = some lock)
    (hk' : s.get? k' = some lock') (haddr : lock.address = lock'.address) : k = k' := by
  have hfind := (h.find_iff lock.address k).mpr ⟨lock, hk, rfl⟩
  have hfind' := (h.find_iff lock.address k').mpr ⟨lock', hk', haddr.symm⟩
  rw [hfind] at hfind'
  exact Option.some.inj hfind'

theorem modify (h : s.Keyed) (key : Nat) {f : Lock → Lock}
    (hf : ∀ lock, (f lock).address = lock.address) : (s.modify key f).Keyed where
  find_iff a k := by
    rw [find?_modify, h.find_iff, get?_modify]
    by_cases hk : key = k
    · rw [if_pos hk]
      constructor
      · rintro ⟨lock, hget, haddr⟩
        exact ⟨f lock, by rw [hget]; rfl, (hf lock).trans haddr⟩
      · rintro ⟨lock, hget, haddr⟩
        obtain ⟨lock', hget', rfl⟩ := Option.map_eq_some_iff.mp hget
        exact ⟨lock', hget', (hf lock').symm.trans haddr⟩
    · rw [if_neg hk]
  fresh k lock hget := by
    rw [get?_modify] at hget
    split at hget
    · obtain ⟨lock', hget', _⟩ := Option.map_eq_some_iff.mp hget
      exact h.fresh k lock' hget'
    · exact h.fresh k lock hget

theorem create (h : s.Keyed) {address : UInt64} (hnew : s.find? address = none) (label : String)
    (kind : LockKind) (placement : Placement) :
    (s.create address label kind placement).store.Keyed where
  find_iff a k := by
    rw [find?_create, get?_create]
    by_cases ha : address = a
    · subst ha
      rw [if_pos rfl]
      constructor
      · intro hk
        cases hk
        exact ⟨_, if_pos rfl, rfl⟩
      · rintro ⟨lock, hget, haddr⟩
        split at hget
        · next hk => rw [hk]
        · rw [(h.find_iff address k).mpr ⟨lock, hget, haddr⟩] at hnew
          cases hnew
    · rw [if_neg ha, h.find_iff]
      constructor
      · rintro ⟨lock, hget, haddr⟩
        have hk : s.keys.next ≠ k := Nat.ne_of_gt (h.fresh k lock hget)
        exact ⟨lock, by rw [if_neg hk, hget], haddr⟩
      · rintro ⟨lock, hget, haddr⟩
        split at hget
        · cases hget
          exact absurd haddr ha
        · exact ⟨lock, hget, haddr⟩
  fresh k lock hget := by
    rw [get?_create] at hget
    rw [keys_create]
    split at hget
    · next hk =>
      rw [← hk]
      exact Nat.lt_succ_self _
    · exact Nat.lt_succ_of_lt (h.fresh k lock hget)

/-- Freeing a range removes exactly the locks at its addresses. -/
theorem get?_freeRange (h : s.Keyed) (base size time : UInt64) (k : Nat) :
    (s.freeRange base size time).store.get? k =
      (s.get? k).filter (fun lock => decide (¬ InRange base size lock.address)) := by
  rw [store_freeRange, get?_removeAll]
  cases hget : s.get? k with
  | none => simp
  | some lock =>
    have hfind := (h.find_iff lock.address k).mpr ⟨lock, hget, rfl⟩
    have hmem : k ∈ (s.keyAt.between base (rangeEnd base size)).map Prod.snd ↔
        InRange base size lock.address := by
      constructor
      · intro hk
        obtain ⟨⟨a, k'⟩, he, rfl⟩ := List.mem_map.mp hk
        obtain ⟨ha, hrange⟩ := (s.mem_between_iff base size a k').mp he
        obtain ⟨lock', hget', haddr⟩ := (h.find_iff a k').mp ha
        rw [hget] at hget'
        cases hget'
        rw [haddr]
        exact hrange
      · intro hrange
        exact List.mem_map.mpr
          ⟨(lock.address, k), (s.mem_between_iff base size _ k).mpr ⟨hfind, hrange⟩, rfl⟩
    by_cases hrange : InRange base size lock.address
    · rw [if_pos (hmem.mpr hrange), Option.filter_some, if_neg (by simpa using hrange)]
    · rw [if_neg (fun hk => hrange (hmem.mp hk)), Option.filter_some,
        if_pos (by simpa using hrange)]

theorem find?_freeRange (s : LockStore) (base size time : UInt64) (a : UInt64) :
    (s.freeRange base size time).store.find? a =
      if InRange base size a then none else s.find? a := by
  rw [store_freeRange, find?_removeAll]
  cases hfind : s.find? a with
  | none => simp
  | some k =>
    have hmem : a ∈ (s.keyAt.between base (rangeEnd base size)).map Prod.fst ↔
        InRange base size a := by
      constructor
      · intro ha
        obtain ⟨⟨a', k'⟩, he, rfl⟩ := List.mem_map.mp ha
        exact ((s.mem_between_iff base size a' k').mp he).2
      · intro hrange
        exact List.mem_map.mpr ⟨(a, k), (s.mem_between_iff base size a k).mpr ⟨hfind, hrange⟩, rfl⟩
    by_cases hrange : InRange base size a
    · rw [if_pos (hmem.mpr hrange), if_pos hrange]
    · rw [if_neg (fun ha => hrange (hmem.mp ha)), if_neg hrange]

theorem freeRange (h : s.Keyed) (base size time : UInt64) :
    (s.freeRange base size time).store.Keyed where
  find_iff a k := by
    rw [find?_freeRange, h.get?_freeRange]
    simp only [Option.filter_eq_some_iff, decide_eq_true_eq]
    by_cases hrange : InRange base size a
    · rw [if_pos hrange]
      constructor
      · intro hk
        cases hk
      · rintro ⟨lock, ⟨_, hout⟩, haddr⟩
        exact absurd (haddr ▸ hrange) hout
    · rw [if_neg hrange, h.find_iff]
      constructor
      · rintro ⟨lock, hget, haddr⟩
        exact ⟨lock, ⟨hget, haddr ▸ hrange⟩, haddr⟩
      · rintro ⟨lock, ⟨hget, _⟩, haddr⟩
        exact ⟨lock, hget, haddr⟩
  fresh k lock hget := by
    rw [keys_freeRange]
    exact h.fresh k lock (get?_of_get?_freeRange hget)

end Keyed

/-! ### Kinds by address -/

def kindAt? (s : LockStore) (address : UInt64) : Option LockKind :=
  (s.find? address).bind fun key => (s.get? key).map Lock.kind

theorem kindAt?_modify (s : LockStore) (key : Nat) {f : Lock → Lock}
    (hf : ∀ lock : Lock, (f lock).kind = lock.kind) (a : UInt64) :
    (s.modify key f).kindAt? a = s.kindAt? a := by
  unfold kindAt?
  rw [find?_modify]
  congr 1
  funext k
  rw [get?_modify]
  split
  · cases s.get? k with
    | none => rfl
    | some lock => rw [Option.map_some, Option.map_some, Option.map_some, hf]
  · rfl

namespace Keyed

variable {s : LockStore}

theorem kindAt?_eq (h : s.Keyed) {key : Nat} {lock : Lock} (hget : s.get? key = some lock) :
    s.kindAt? lock.address = some lock.kind := by
  unfold kindAt?
  rw [(h.find_iff lock.address key).mpr ⟨lock, hget, rfl⟩, Option.bind_some, hget]
  rfl

theorem kindAt?_create (h : s.Keyed) (address : UInt64) (label : String) (kind : LockKind)
    (placement : Placement) (a : UInt64) :
    (s.create address label kind placement).store.kindAt? a =
      if address = a then some kind else s.kindAt? a := by
  unfold kindAt?
  rw [find?_create]
  split
  · rw [Option.bind_some, get?_create, if_pos rfl, Option.map_some, kind_newLock]
  · cases hfind : s.find? a with
    | none => rfl
    | some k =>
      obtain ⟨lock, hget, _⟩ := (h.find_iff a k).mp hfind
      have hk : s.keys.next ≠ k := Nat.ne_of_gt (h.fresh k lock hget)
      rw [Option.bind_some, Option.bind_some, get?_create, if_neg hk]

theorem kindAt?_freeRange (h : s.Keyed) (base size time : UInt64) (a : UInt64) :
    (s.freeRange base size time).store.kindAt? a =
      if InRange base size a then none else s.kindAt? a := by
  unfold kindAt?
  rw [find?_freeRange]
  split
  · rfl
  · next hout =>
    cases hfind : s.find? a with
    | none => rfl
    | some k =>
      obtain ⟨lock, hget, rfl⟩ := (h.find_iff a k).mp hfind
      rw [Option.bind_some, Option.bind_some, h.get?_freeRange, hget, Option.filter_some,
        if_pos (by simpa using hout)]

end Keyed

end LockStore

end LockTrace
