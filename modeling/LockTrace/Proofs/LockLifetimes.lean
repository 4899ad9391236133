import LockTrace.Proofs.References

/-!
# How long locks live

A lock is gone when memory around it is freed, and at no other time. What owns a lock and what
is freed are decided by two tests: a lock belongs to the nearest active allocation below it, if
that reaches far enough, and a freed allocation takes all locks from its base up to its end,
which is cut off at the last address. Below the last address both say the same
(`Allocation.inRange_iff_contains`), so that the owner of a live lock is always active
(`Session.owner_active_of_run`).

Reserved addresses are no exception. The lock at such an address stays until an allocation
around it is freed, and then never comes back (`Session.pseudoLock_found_iff_of_run`).
-/

namespace LockTrace

/-- No reserved address is the last of all. -/
theorem Lock.toNat_lt_of_pseudoName? {address : UInt64} (h : (pseudoName? address).isSome) :
    address.toNat < UInt64.size - 1 := by
  have hcases : address = 0x42 ∨ address = 0x43 ∨ address = 0x44 ∨ address = 0x45 := by
    unfold pseudoName? at h
    grind
  rcases hcases with rfl | rfl | rfl | rfl <;> decide

namespace Allocation

variable {a : Allocation} {address : UInt64}

/-- The addresses of an allocation as numbers. They may go beyond the last address. -/
theorem contains_iff :
    a.Contains address ↔
      a.base.toNat ≤ address.toNat ∧ address.toNat < a.base.toNat + a.size.toNat := by
  unfold Contains
  rw [UInt64.le_iff_toNat_le, UInt64.lt_iff_toNat_lt]
  refine and_congr_right fun hle => ?_
  rw [UInt64.toNat_sub_of_le _ _ (UInt64.le_iff_toNat_le.mpr hle)]
  omega

/-- Below the last address, exactly the locks in an allocation go with it. -/
theorem inRange_iff_contains (hlast : address.toNat < UInt64.size - 1) :
    LockStore.InRange a.base a.size address ↔ a.Contains address := by
  have hne : address ≠ LockStore.lastAddress := by
    rintro rfl
    exact Nat.lt_irrefl _ hlast
  exact (LockStore.inRange_iff_covers a.base a.size address).trans (and_iff_left hne)

end Allocation

namespace Heap

/-- Nothing that is active ends when an allocation begins. -/
theorem mem_active_allocate {h : Heap} {a : Allocation} (ha : a ∈ h.active.values)
    (base size : UInt64) (typeName : String) (time : UInt64) :
    a ∈ (h.allocate base size typeName time).heap.active.values := by
  unfold allocate
  split
  · exact ha
  · next hnew =>
    split
    · have hnone : h.active.get? base = none := by simpa [AscMap.contains] using hnew
      exact (AscMap.values_insert_perm hnone _).symm.subset (List.mem_cons_of_mem _ ha)
    · exact ha

end Heap

namespace Monitor

/-! ### Look-ups by address -/

section LookUps

variable (m : Monitor)

theorem find?_withLock (address : UInt64) (label : String) (kind : LockKind) (flags : UInt32)
    (placement : Placement) (address' : UInt64) :
    (m.withLock address label kind flags placement).locks.find? address' =
      if address = address' then some m.locks.keys.next else m.locks.find? address' :=
  m.locks.find?_create address label kind placement address'

theorem find?_freeRange (base size time address : UInt64) :
    (m.freeRange base size time).2.locks.find? address =
      if LockStore.InRange base size address then none else m.locks.find? address :=
  LockStore.Keyed.find?_freeRange m.locks base size time address

theorem lookUps_step (key : Nat) (t : Transition) :
    (m.step key t).1.locks.keyAt = m.locks.keyAt ∧ (m.step key t).1.locks.keys = m.locks.keys := by
  apply step_induction
    (P := fun m' => m'.locks.keyAt = m.locks.keyAt ∧ m'.locks.keys = m.locks.keys)
    _ _ _ _ ⟨rfl, rfl⟩
  · exact fun _ _ _ h => h
  · exact fun _ _ _ h => h
  · exact fun _ h => h
  · intro m' side owner purge h _
    rw [locks_closeTxn]
    exact h

theorem keys_step (key : Nat) (t : Transition) : (m.step key t).1.locks.keys = m.locks.keys :=
  (m.lookUps_step key t).2

theorem find?_step (key : Nat) (t : Transition) (address : UInt64) :
    (m.step key t).1.locks.find? address = m.locks.find? address :=
  congrArg (fun keyAt => keyAt.get? address) (m.lookUps_step key t).1

end LookUps

end Monitor

namespace Session

/-! ### Freeing -/

/-- The accesses that are written before a free change neither locks nor the heap. -/
theorem locks_step_of_free {e : Event} (he : e.operation = .free) (s : Session) :
    (s.heap.active.get? e.address = none ∧ (s.step e).1.monitor.locks = s.monitor.locks) ∨
    ∃ a, s.heap.active.get? e.address = some a ∧
      (s.step e).1.monitor.locks = (s.monitor.locks.freeRange a.base a.size e.time).store := by
  have hheap : ((s.note e).flush none).heap = s.heap := heap_flush _ none
  have hlocks : ((s.note e).flush none).monitor.locks = s.monitor.locks := locks_flush _ none
  rw [step_of_free he, ← hheap, ← hlocks]
  rcases ((s.note e).flush none).freeEvent_cases e with ⟨hnone, _, h⟩ | ⟨a, ha, _, h⟩
  · exact Or.inl ⟨hnone, h⟩
  · exact Or.inr ⟨a, ha, h⟩

/-! ### The owner of a lock -/

/-- The allocation in which a live lock lies is active. The lock at the last address of all is
    left aside, since no freed range reaches it. -/
structure Housed (s : Session) : Prop where
  keyed : s.monitor.locks.Keyed
  owner : ∀ key lock id, s.monitor.locks.get? key = some lock →
    lock.address.toNat < UInt64.size - 1 → lock.allocation = some id →
    ∃ a ∈ s.heap.active.values, a.id = id ∧ a.Contains lock.address

namespace Housed

variable {s : Session}

theorem initial (config : Config) (symbols : SymbolTable) :
    (Session.initial config symbols).Housed where
  keyed := .empty
  owner key lock id hget := by cases hget

/-- A new lock lies where the heap says. -/
theorem withLock (h : s.Housed) {address : UInt64} (label : String) (kind : LockKind)
    (flags : UInt32) (hnew : s.monitor.locks.find? address = none) :
    Housed { s with monitor := s.monitor.withLock address label kind flags (s.place address) } where
  keyed := (h.keyed.create hnew label kind _).modify _ fun _ => rfl
  owner key lock id hget hlast hid := by
    obtain ⟨created, hcreated, hsame⟩ :=
      LockStore.exists_same_of_get?_modify (fun l => l.same_setFlags flags) hget
    rw [hsame.address] at hlast
    rw [hsame.allocation] at hid
    rw [hsame.address]
    rw [LockStore.get?_create] at hcreated
    split at hcreated
    · cases hcreated
      obtain ⟨a, ha, rfl⟩ := Option.map_eq_some_iff.mp ((s.allocation_place address).symm.trans hid)
      obtain ⟨hmem, hcontains⟩ := Heap.mem_of_containing? ha
      exact ⟨a, hmem, rfl, hcontains⟩
    · exact h.owner key created id hcreated hlast hid

theorem operate (h : s.Housed) (key : Nat) (t : Transition) :
    Housed { s with monitor := (s.monitor.step key t).1 } := by
  apply Monitor.step_induction (P := fun m => Housed { s with monitor := m }) _ _ _ _ h
  · exact fun _ _ _ h => ⟨h.keyed, h.owner⟩
  · intro m f hf h
    refine ⟨h.keyed.modify key fun lock => (hf lock).address, ?_⟩
    intro k lock' id hget hlast hid
    obtain ⟨lock, hget', hsame⟩ := LockStore.exists_same_of_get?_modify hf hget
    rw [hsame.address] at hlast
    rw [hsame.allocation] at hid
    rw [hsame.address]
    exact h.owner k lock id hget' hlast hid
  · exact fun _ h => ⟨h.keyed, h.owner⟩
  · intro m side owner purge h _
    have hlocks := m.locks_closeTxn key side owner t.time purge
    exact ⟨hlocks ▸ h.keyed, hlocks ▸ h.owner⟩

theorem allocEvent (h : s.Housed) (e : Event) (size : UInt64) : (s.allocEvent e size).Housed where
  keyed := h.keyed
  owner key lock id hget hlast hid := by
    obtain ⟨a, ha, hrest⟩ := h.owner key lock id hget hlast hid
    exact ⟨a, Heap.mem_active_allocate ha e.address size e.typeName e.time, hrest⟩

/-- A lock whose owner ends is in the range that is freed. -/
theorem freeEvent (h : s.Housed) (e : Event) : (s.freeEvent e).Housed := by
  rcases s.freeEvent_cases e with ⟨_, hheap, hlocks⟩ | ⟨a, hactive, hheap, hlocks⟩
  · exact ⟨hlocks ▸ h.keyed, by rw [hlocks, hheap]; exact h.owner⟩
  · refine ⟨hlocks ▸ h.keyed.freeRange a.base a.size e.time, ?_⟩
    intro key lock id hget hlast hid
    rw [hlocks, h.keyed.get?_freeRange] at hget
    obtain ⟨hget, hout⟩ := Option.filter_eq_some_iff.mp hget
    obtain ⟨b, hb, hrest⟩ := h.owner key lock id hget hlast hid
    rcases List.mem_cons.mp ((AscMap.values_perm_cons_erase hactive).subset hb) with rfl | hb
    · exact absurd ((Allocation.inRange_iff_contains hlast).mpr hrest.2) (of_decide_eq_true hout)
    · rw [hheap]
      exact ⟨b, hb, hrest⟩

end Housed

theorem keptAt_housed (time : UInt64) : KeptAt time Housed where
  same h hmonitor hheap := ⟨hmonitor ▸ h.keyed, by rw [hmonitor, hheap]; exact h.owner⟩
  unseen _ _ _ h := ⟨h.keyed, h.owner⟩
  access _ h := ⟨h.keyed, h.owner⟩
  withLock _ label kind flags hnew h := h.withLock label kind flags hnew
  operate key t _ h := h.operate key t
  alloc e size h := h.allocEvent e size
  free e h := h.freeEvent e

theorem housed_run (config : Config) (symbols : SymbolTable) (es : List Event) :
    ((Session.initial config symbols).run es).1.Housed :=
  run_induction (P := Housed) (fun e _ h => (keptAt_housed e.time).event h)
    (.initial config symbols)

/-- No lock outlives its owner. Whatever the events of a trace are, the allocation whose number
    a live lock has is active and reaches around the lock. -/
theorem owner_active_of_run (config : Config) (symbols : SymbolTable) (es : List Event)
    {key id : Nat} {lock : Lock}
    (hget : ((Session.initial config symbols).run es).1.monitor.locks.get? key = some lock)
    (hlast : lock.address.toNat < UInt64.size - 1) (hid : lock.allocation = some id) :
    ∃ a ∈ ((Session.initial config symbols).run es).1.heap.active.values, a.id = id ∧
      a.base.toNat ≤ lock.address.toNat ∧
      lock.address.toNat < a.base.toNat + a.size.toNat := by
  obtain ⟨a, ha, haid, hcontains⟩ :=
    (housed_run config symbols es).owner key lock id hget hlast hid
  exact ⟨a, ha, haid, Allocation.contains_iff.mp hcontains⟩

/-- Allocations that overlap, that lie in one another, that have no room and that go beyond the
    last address; the first one ends, and takes locks away whose owner stays. -/
def overlappingAllocations : List Event :=
  [⟨1, 1, .alloc 64, 0x300, "inode", Site.unknown, 0⟩,
   ⟨2, 1, .alloc 256, 0x310, "dentry", Site.unknown, 0⟩,
   ⟨3, 1, .alloc 0, 0x320, "inode", Site.unknown, 0⟩,
   ⟨4, 1, .alloc 4096, 0xffffffffffffff00, "page", Site.unknown, 0⟩,
   ⟨5, 1, .acquire .writer .none 0, 0x308, "spinlock_t", Site.unknown, 0⟩,
   ⟨6, 1, .acquire .writer .none 0, 0x318, "spinlock_t", Site.unknown, 0⟩,
   ⟨7, 1, .acquire .writer .none 0, 0x328, "spinlock_t", Site.unknown, 0⟩,
   ⟨8, 1, .acquire .writer .none 0, 0xffffffffffffff80, "spinlock_t", Site.unknown, 0⟩,
   ⟨9, 1, .free, 0x300, "", Site.unknown, 0⟩,
   ⟨10, 1, .acquire .writer .none 0, 0x318, "spinlock_t", Site.unknown, 0⟩]

/-- The lock that was taken away with its neighbour and came back in the second allocation. -/
def returnedLock : Lock where
  address := 0x318
  subLocks := .writer 5
  label := "spinlock_t"
  allocation := some 2
  varName := none
  flags := 0
  readers := 0
  writers := 1
  history := [⟨⟨10, Site.unknown, 0, .none⟩, .writer⟩]

theorem owner_active_of_overlappingAllocations :
    ((Session.initial .default ∅).run overlappingAllocations).1.monitor.locks.get? 5 =
        some returnedLock ∧
      returnedLock.address.toNat < UInt64.size - 1 ∧ returnedLock.allocation = some 2 ∧
      ∃ a ∈ ((Session.initial .default ∅).run overlappingAllocations).1.heap.active.values,
        a.id = 2 ∧ a.base.toNat ≤ returnedLock.address.toNat ∧
        returnedLock.address.toNat < a.base.toNat + a.size.toNat := by
  have hget : ((Session.initial .default ∅).run overlappingAllocations).1.monitor.locks.get? 5 =
      some returnedLock := by decide +kernel
  exact ⟨hget, by decide, rfl, owner_active_of_run .default ∅ _ hget (by decide) rfl⟩

/-! ### Reserved addresses -/

/-- The event ends an active allocation around an address. -/
def FreesAround (s : Session) (e : Event) (address : UInt64) : Prop :=
  e.operation = .free ∧ ∃ a, s.heap.active.get? e.address = some a ∧
    a.base.toNat ≤ address.toNat ∧ address.toNat < a.base.toNat + a.size.toNat

/-- A lock stays at its address as long as no allocation ends. -/
theorem keptByLocksAt_find? (time address : UInt64) (key : Nat) :
    KeptByLocksAt time fun s => s.monitor.locks.find? address = some key where
  same h hmonitor _ := by
    rw [hmonitor]
    exact h
  unseen _ _ _ h := h
  access _ h := h
  withLock {s} address' label kind flags hnew h := by
    have hne : address' ≠ address := by
      rintro rfl
      cases hnew.symm.trans h
    rw [Monitor.find?_withLock, if_neg hne]
    exact h
  operate {s} key' t _ h := by
    rw [Monitor.find?_step]
    exact h

/-- The key was handed out, and is not that of the lock at an address. -/
structure Outdated (address : UInt64) (key : Nat) (locks : LockStore) : Prop where
  issued : key < locks.keys.next
  gone : locks.find? address ≠ some key

/-- Keys are handed out once, so a key that is outdated remains so. -/
theorem kept_outdated (address : UInt64) (key : Nat) :
    Monitor.Kept fun m => Outdated address key m.locks := fun _ => {
  plain h _ := h
  unseen _ _ _ _ h := h
  access _ _ h := h
  withLock {m} address' label kind flags placement _ h := by
    refine ⟨Nat.lt_succ_of_lt h.issued, ?_⟩
    rw [Monitor.find?_withLock]
    split
    · rintro ⟨⟩
      exact Nat.lt_irrefl _ h.issued
    · exact h.gone
  freeRange {m} base size time h := by
    refine ⟨(m.locks.keys_freeRange base size time).symm ▸ h.issued, ?_⟩
    rw [Monitor.find?_freeRange]
    split
    · exact (Option.some_ne_none key).symm
    · exact h.gone
  operate {m} key' t _ h :=
    ⟨(m.keys_step key' t).symm ▸ h.issued, (m.find?_step key' t address).symm ▸ h.gone⟩ }

section Stays

variable {s : Session} {address : UInt64} {key : Nat}

/-- An event takes the lock at an address away exactly if it ends an allocation around it. -/
theorem find?_step_iff (hfind : s.monitor.locks.find? address = some key)
    (hlast : address.toNat < UInt64.size - 1) (e : Event) :
    (s.step e).1.monitor.locks.find? address = some key ↔ ¬ s.FreesAround e address := by
  by_cases he : e.operation = .free
  · rcases s.locks_step_of_free he with ⟨hnone, hlocks⟩ | ⟨a, ha, hlocks⟩
    · rw [hlocks]
      refine iff_of_true hfind ?_
      rintro ⟨_, a, ha, _⟩
      cases hnone.symm.trans ha
    · have hfrees : s.FreesAround e address ↔ LockStore.InRange a.base a.size address := by
        rw [Allocation.inRange_iff_contains hlast, Allocation.contains_iff]
        simp [FreesAround, he, ha]
      rw [hlocks, LockStore.Keyed.find?_freeRange, hfrees]
      split
      · next hin => exact iff_of_false (Option.some_ne_none key).symm (not_not_intro hin)
      · next hout => exact iff_of_true hfind hout
  · have hkept := keptByLocksAt_find? e.time address key
    refine iff_of_true ?_ fun hfrees => he hfrees.1
    exact hkept.event hfind (fun _ _ => hkept.flush (hkept.note hfind e) none)
      fun hfree => absurd hfree he

/-- The key of a lock that is taken away is outdated. -/
theorem outdated_step (hkeyed : s.monitor.locks.Keyed)
    (hfind : s.monitor.locks.find? address = some key) (hlast : address.toNat < UInt64.size - 1)
    {e : Event} (hfrees : s.FreesAround e address) :
    Outdated address key (s.step e).1.monitor.locks := by
  refine ⟨?_, fun h => (find?_step_iff hfind hlast e).mp h hfrees⟩
  obtain ⟨lock, hget, _⟩ := (hkeyed.find_iff address key).mp hfind
  rcases s.locks_step_of_free hfrees.1 with ⟨_, hlocks⟩ | ⟨a, _, hlocks⟩
  · rw [hlocks]
    exact hkeyed.fresh key lock hget
  · rw [hlocks, LockStore.keys_freeRange]
    exact hkeyed.fresh key lock hget

/-- The lock at an address is there after a run exactly if no event on the way ends an allocation
    around it. -/
theorem find?_run_iff (hkeyed : s.monitor.locks.Keyed)
    (hfind : s.monitor.locks.find? address = some key)
    (hlast : address.toNat < UInt64.size - 1) (es : List Event) :
    (s.run es).1.monitor.locks.find? address = some key ↔
      s.EachFollowed (fun s e => ¬ s.FreesAround e address) es := by
  induction es generalizing s with
  | nil => exact iff_of_true hfind (eachFollowed_nil _ s)
  | cons e es ih =>
    have hkeyed' := kept_keyed.event hkeyed e
    rw [eachFollowed_cons]
    by_cases hfrees : s.FreesAround e address
    · -- The key is outdated from here on, whatever comes.
      have houtdated := outdated_step hkeyed hfind hlast hfrees
      refine iff_of_false ?_ fun hall => hall.1 hfrees
      cases hstep : s.step e with
      | mk s' stop =>
        rw [hstep] at houtdated
        cases stop with
        | none =>
          rw [run_cons hstep]
          exact ((kept_outdated address key).run houtdated es).gone
        | some cause =>
          rw [run_cons_of_stop hstep]
          exact houtdated.gone
    · have hfind' := (find?_step_iff hfind hlast e).mpr hfrees
      cases hstep : s.step e with
      | mk s' stop =>
        rw [hstep] at hfind' hkeyed'
        cases stop with
        | none =>
          rw [run_cons hstep, ih hkeyed' hfind']
          simp [hfrees]
        | some cause =>
          rw [run_cons_of_stop hstep]
          exact iff_of_true hfind' ⟨hfrees, by simp⟩

end Stays

/-- The lock at a reserved address is found there after a run exactly if no event on the way ends
    an allocation around the address. -/
theorem pseudoLock_found_iff_of_run {config : Config} {symbols : SymbolTable}
    {before : List Event} {s : Session} {address : UInt64} {key : Nat}
    (hrun : (Session.initial config symbols).run before = (s, none))
    (hpseudo : (Lock.pseudoName? address).isSome)
    (hfind : s.monitor.locks.find? address = some key) (after : List Event) :
    (s.run after).1.monitor.locks.find? address = some key ↔
      ∀ earlier e later, after = earlier ++ e :: later → (s.run earlier).2 = none →
        ¬ (s.run earlier).1.FreesAround e address := by
  have hkeyed : s.monitor.locks.Keyed := by
    have hall := kept_keyed.run (s := Session.initial config symbols) .empty before
    rwa [hrun] at hall
  exact find?_run_iff hkeyed hfind (Lock.toNat_lt_of_pseudoName? hpseudo) after

/-- A reader enters and leaves a section of the lock at 0x42. -/
def readSection : List Event :=
  [⟨1, 1, .acquire .reader .none 0, 0x42, "rcu", Site.unknown, 0⟩,
   ⟨2, 1, .release .reader 0, 0x42, "rcu", Site.unknown, 0⟩]

/-- An allocation that ends right below the lock. -/
def lowAllocation : List Event :=
  [⟨3, 1, .alloc 2, 0x40, "inode", Site.unknown, 0⟩,
   ⟨4, 1, .free, 0x40, "", Site.unknown, 0⟩]

theorem pseudoLock_found_iff_of_lowAllocation :
    ∃ s, (Session.initial .default ∅).run readSection = (s, none) ∧
      (Lock.pseudoName? 0x42).isSome ∧ s.monitor.locks.find? 0x42 = some 1 ∧
      ((s.run lowAllocation).1.monitor.locks.find? 0x42 = some 1 ↔
        ∀ earlier e later, lowAllocation = earlier ++ e :: later →
          (s.run earlier).2 = none → ¬ (s.run earlier).1.FreesAround e 0x42) := by
  have hstop : ((Session.initial .default ∅).run readSection).2 = none := by decide +kernel
  have hfind : ((Session.initial .default ∅).run readSection).1.monitor.locks.find? 0x42 =
      some 1 := by decide +kernel
  exact ⟨_, Prod.ext rfl hstop, by decide, hfind,
    pseudoLock_found_iff_of_run (Prod.ext rfl hstop) (by decide) hfind lowAllocation⟩

/-- An allocation at the null pointer. -/
def nullAllocation : List Event :=
  [⟨3, 1, .alloc 4096, 0, "inode", Site.unknown, 0⟩,
   ⟨4, 1, .free, 0, "", Site.unknown, 0⟩]

/-- A lock at a reserved address need not stay to the end of the trace. -/
theorem not_forall_pseudoLock_found :
    ¬ ∀ (config : Config) (symbols : SymbolTable) (before after : List Event) (s : Session)
        (address : UInt64) (key : Nat),
      (Session.initial config symbols).run before = (s, none) →
      (Lock.pseudoName? address).isSome → s.monitor.locks.find? address = some key →
      (s.run after).1.monitor.locks.find? address = some key := by
  intro hall
  have hstop : ((Session.initial .default ∅).run readSection).2 = none := by decide +kernel
  have hfind : ((Session.initial .default ∅).run readSection).1.monitor.locks.find? 0x42 =
      some 1 := by decide +kernel
  have hgone : (((Session.initial .default ∅).run readSection).1.run
      nullAllocation).1.monitor.locks.find? 0x42 = none := by decide +kernel
  have hstays := hall .default ∅ readSection nullAllocation
    ((Session.initial .default ∅).run readSection).1 0x42 1 (Prod.ext rfl hstop) (by decide) hfind
  rw [hgone] at hstays
  cases hstays

end Session

end LockTrace
