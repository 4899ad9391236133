import LockTrace.Proofs.LiveLocks
import LockTrace.Session.Basic

/-!
# What a trace says by itself

A ledger follows a trace without transactions. It knows which acquisitions are not yet
released, as a plain list, and so which sub-locks a context holds when it reads or writes
memory. What it attests for an access is what the rows of the access should say.

A trace is legal if no lock operation in it disagrees with the ledger (`Ledger.Legal`): a
side is one that the lock has, a lock is not taken from those who hold it, only what is held
is released, and by those who hold it, and no memory is freed in which a lock is held. Nothing
is said about the order of releases or about the contexts that take turns.
-/

namespace LockTrace

/-- An acquisition that is not yet released. -/
structure Hold where
  ctx : Int64
  address : UInt64
  side : Side
deriving DecidableEq, Repr

/-- An access together with the sub-locks that its context held. -/
structure Attested where
  access : PendingAccess
  held : List (UInt64 × Side)
deriving DecidableEq, Repr

structure Ledger where
  heap : Heap
  /-- The kinds of the locks that were acquired and whose memory was not freed since. -/
  kinds : UInt64 → Option LockKind
  holds : List Hold
  /-- The accesses since the last event that was no access, the latest first. -/
  waiting : List Attested
  /-- The accesses before, the earliest first, without those of lock operations. -/
  kept : List Attested

namespace Ledger

def start (config : Config) : Ledger := ⟨.initial config.dataTypes, fun _ => none, [], [], []⟩

/-- The sub-locks that a context holds, as often as it holds them. -/
def held (l : Ledger) (ctx : Int64) : List (UInt64 × Side) :=
  (l.holds.filter (fun h => decide (h.ctx = ctx))).map fun h => (h.address, h.side)

/-- Some context holds a side of the lock at an address. -/
def Outstanding (l : Ledger) (address : UInt64) (side : Side) : Prop :=
  ∃ h ∈ l.holds, h.address = address ∧ h.side = side

instance (l : Ledger) (address : UInt64) (side : Side) : Decidable (l.Outstanding address side) :=
  inferInstanceAs (Decidable (∃ h ∈ l.holds, _))

/-- The kind of the lock that an event is about. A lock that is new gets it from its label. -/
def kindFor (l : Ledger) (e : Event) : Option LockKind :=
  (l.kinds e.address).or (LockKind.ofLabel? e.typeName)

/-- The lock that an event is about has a side. -/
def Supports (l : Ledger) (e : Event) (side : Side) : Prop :=
  ((l.kindFor e).any fun kind => kind.supports side) = true

instance (l : Ledger) (e : Event) (side : Side) : Decidable (l.Supports e side) :=
  inferInstanceAs (Decidable (_ = true))

theorem supports_iff {l : Ledger} {e : Event} {side : Side} :
    l.Supports e side ↔ ∃ kind, l.kindFor e = some kind ∧ kind.supports side = true :=
  Option.any_eq_true _ _

/-! ### Events -/

/-- Pass on the accesses that waited, but for the ones that a lock operation made on its own
    lock. -/
def settle (l : Ledger) (lock : Option (UInt64 × Int64)) : Ledger :=
  let dropped := (Session.dropOwnUpdate lock (l.waiting.map Attested.access)).2
  { l with waiting := [], kept := l.kept ++ (l.waiting.drop dropped).reverse }

def attest (l : Ledger) (e : Event) (kind : AccessKind) (size : UInt64) : Ledger :=
  { l with
    waiting := ⟨⟨e.ctx, e.time, kind, size, e.address, e.site⟩, l.held e.ctx⟩ :: l.waiting }

def allocate (l : Ledger) (e : Event) (size : UInt64) : Ledger :=
  { l with heap := (l.heap.allocate e.address size e.typeName e.time).heap }

/-- The locks of a range of addresses are gone. -/
def forget (l : Ledger) (base size : UInt64) : Ledger :=
  { l with
    kinds := fun address => if LockStore.InRange base size address then none else l.kinds address }

/-- The end of an allocation and of the locks in it. -/
def free (l : Ledger) (e : Event) : Ledger :=
  match l.heap.active.get? e.address with
  | none => l
  | some a => { l.forget a.base a.size with heap := (l.heap.free e.address e.time).heap }

/-- The lock that an event is about is known. -/
def locate (l : Ledger) (e : Event) : Ledger :=
  { l with
    kinds := fun address => if e.address = address then l.kindFor e else l.kinds address }

def take (l : Ledger) (h : Hold) : Ledger := { l with holds := h :: l.holds }

def drop (l : Ledger) (h : Hold) : Ledger := { l with holds := l.holds.erase h }

def advance (l : Ledger) (e : Event) : Ledger :=
  match e.operation with
  | .access kind size => l.attest e kind size
  | .alloc size => (l.settle none).allocate e size
  | .free => (l.settle none).free e
  | .acquire side _ _ =>
    if e.typeName ∈ Session.ignoredTypes then l
    else ((l.settle (some (e.address, e.ctx))).locate e).take ⟨e.ctx, e.address, side⟩
  | .release side _ =>
    if e.typeName ∈ Session.ignoredTypes then l
    else (l.settle (some (e.address, e.ctx))).drop ⟨e.ctx, e.address, side⟩

/-- The accesses of a trace and what was held, without those of lock operations. -/
def account (config : Config) (es : List Event) : List Attested :=
  ((es.foldl advance (start config)).settle none).kept

/-! ### Legal traces -/

/-- A reader or a writer may acquire a lock. A writer whose flags have the lowest bit set may
    do so again. -/
def MayAcquire (l : Ledger) (address : UInt64) (flags : UInt32) : Side → Prop
  | .reader => ¬ l.Outstanding address .writer
  | .writer => ¬ l.Outstanding address .reader ∧ (flags &&& 1 = 0 → ¬ l.Outstanding address .writer)

instance (l : Ledger) (address : UInt64) (flags : UInt32) :
    (side : Side) → Decidable (l.MayAcquire address flags side)
  | .reader => inferInstanceAs (Decidable (¬ _))
  | .writer => inferInstanceAs (Decidable (¬ _ ∧ (_ → ¬ _)))

/-- The operation of an event does not disagree with the ledger. -/
def AllowsOperation (l : Ledger) (e : Event) : Operation → Prop
  | .alloc _ => True
  | .access .. => True
  | .free => ∀ a ∈ l.heap.active.get? e.address, ∀ h ∈ l.holds, ¬ a.Contains h.address
  | .acquire side _ flags =>
    e.typeName ∈ Session.ignoredTypes ∨ (l.Supports e side ∧ l.MayAcquire e.address flags side)
  | .release side _ =>
    e.typeName ∈ Session.ignoredTypes ∨ (l.Supports e side ∧ ⟨e.ctx, e.address, side⟩ ∈ l.holds)

instance (l : Ledger) (e : Event) : (op : Operation) → Decidable (l.AllowsOperation e op)
  | .alloc _ => inferInstanceAs (Decidable True)
  | .access .. => inferInstanceAs (Decidable True)
  | .free => inferInstanceAs (Decidable (∀ a ∈ _, ∀ h ∈ l.holds, ¬ Allocation.Contains a h.address))
  | .acquire .. => inferInstanceAs (Decidable (_ ∨ (_ ∧ _)))
  | .release .. => inferInstanceAs (Decidable (_ ∨ (_ ∧ _)))

/-- Every event is allowed when its turn comes. -/
def Legal (l : Ledger) : List Event → Prop
  | [] => True
  | e :: es => l.AllowsOperation e e.operation ∧ (l.advance e).Legal es

instance decidableLegal (l : Ledger) : (es : List Event) → Decidable (l.Legal es)
  | [] => inferInstanceAs (Decidable True)
  | e :: es =>
    let _ := decidableLegal (l.advance e) es
    inferInstanceAs (Decidable (_ ∧ _))

/-! ### What a context holds -/

section Held

variable (l : Ledger)

theorem held_take (h : Hold) (ctx : Int64) :
    (l.take h).held ctx =
      if h.ctx = ctx then (h.address, h.side) :: l.held ctx else l.held ctx := by
  unfold held take
  rw [List.filter_cons]
  simp only [decide_eq_true_eq]
  split <;> rfl

/-- The context that releases has one hold less, and no other context has. -/
theorem held_drop_perm {h : Hold} (hh : h ∈ l.holds) (ctx : Int64) :
    (l.held ctx).Perm
      (if h.ctx = ctx then (h.address, h.side) :: (l.drop h).held ctx
      else (l.drop h).held ctx) := by
  have hperm := ((List.perm_cons_erase hh).filter (fun k => decide (k.ctx = ctx))).map
    fun k : Hold => (k.address, k.side)
  rw [List.filter_cons] at hperm
  simp only [decide_eq_true_eq] at hperm
  split at hperm
  · next hctx =>
    rw [if_pos hctx]
    exact hperm
  · next hctx =>
    rw [if_neg hctx]
    exact hperm

theorem mem_held_iff {ctx : Int64} {p : UInt64 × Side} :
    p ∈ l.held ctx ↔ ⟨ctx, p.1, p.2⟩ ∈ l.holds := by
  unfold held
  rw [List.mem_map]
  constructor
  · rintro ⟨h, hh, rfl⟩
    obtain ⟨hmem, hctx⟩ := List.mem_filter.mp hh
    rw [← of_decide_eq_true hctx]
    exact hmem
  · intro h
    exact ⟨_, List.mem_filter.mpr ⟨h, decide_eq_true rfl⟩, rfl⟩

theorem outstanding_of_mem_held {ctx : Int64} {address : UInt64} {side : Side}
    (h : (address, side) ∈ l.held ctx) : l.Outstanding address side :=
  ⟨_, l.mem_held_iff.mp h, rfl, rfl⟩

end Held

end Ledger

end LockTrace
