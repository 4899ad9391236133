import LockTrace.Event
import LockTrace.Numbering
import LockTrace.Text.Numeral

/-!
# One lock

A lock sits at an address. It counts how often each side is held, and remembers the
position of every acquisition that is not yet released. The sides that its kind has are
numbered; the numbers identify the rows of the locks table.
-/

namespace LockTrace

/-! ### Sub-locks -/

/-- The numbers of the sides that a lock has. -/
inductive SubLocks where
  | reader (readId : Nat)
  | writer (writeId : Nat)
  | both (readId writeId : Nat)
deriving DecidableEq, Repr

namespace SubLocks

def kind : SubLocks → LockKind
  | reader _ => .readerOnly
  | writer _ => .writerOnly
  | both .. => .readerWriter

/-- The number of a side, if the lock has that side. -/
def id? : SubLocks → Side → Option Nat
  | reader r, .reader => some r
  | both r _, .reader => some r
  | writer w, .writer => some w
  | both _ w, .writer => some w
  | _, _ => none

/-- The numbered sides, the writer side first. -/
def sides : SubLocks → List (Side × Nat)
  | reader r => [(.reader, r)]
  | writer w => [(.writer, w)]
  | both r w => [(.writer, w), (.reader, r)]

/-- Number the sides of a new lock. With two sides the reader side comes first. -/
def assign (kind : LockKind) (ids : Counter) : SubLocks × Counter :=
  match kind with
  | .readerOnly => (reader ids.next, ids.advance)
  | .writerOnly => (writer ids.next, ids.advance)
  | .readerWriter => (both ids.next ids.advance.next, ids.advance.advance)

@[simp] theorem kind_assign (kind : LockKind) (ids : Counter) :
    (assign kind ids).1.kind = kind := by
  cases kind <;> rfl

theorem mem_sides {s : SubLocks} {side : Side} {id : Nat} :
    (side, id) ∈ s.sides ↔ s.id? side = some id := by
  cases s <;> cases side <;> simp [sides, id?, eq_comm]

theorem isSome_id? (s : SubLocks) (side : Side) :
    (s.id? side).isSome = s.kind.supports side := by
  cases s <;> cases side <;> rfl

end SubLocks

/-! ### Positions -/

/-- When, where and how a side was acquired. -/
structure Acquisition where
  start : UInt64
  site : Site
  preemptCount : UInt64
  irqSync : IrqSync
deriving DecidableEq, Repr

/-- An acquisition together with the side it took. -/
structure Position extends Acquisition where
  side : Side
deriving DecidableEq, Repr

/-! ### Locks -/

/-- How the acquisition of one side meets the current state of a lock. -/
inductive AcquireState where
  /-- Neither side is held. -/
  | free
  /-- Readers hold the lock, and another reader joins. -/
  | sharedReaders
  /-- A writer holds the lock, and a writer asks again. -/
  | writerHeld
  /-- The opposite side is held. -/
  | otherSideHeld
  /-- Both sides are held. -/
  | contradictory
deriving DecidableEq, Repr

/-- A lock of the traced kernel. -/
structure Lock where
  address : UInt64
  subLocks : SubLocks
  /-- The name of the lock's type. -/
  label : String
  /-- The allocation in which the lock lies. -/
  allocation : Option Nat
  /-- The variable that holds a lock outside of every allocation. -/
  varName : Option String
  flags : UInt32
  /-- How often the reader side is held. The count has no bound: one kept in 32 bits is the same
      until a side is acquired `2 ^ 32` times without a release. -/
  readers : Nat
  /-- How often the writer side is held, without a bound as well. -/
  writers : Nat
  /-- The positions of the acquisitions in force, the latest first. -/
  history : List Position
deriving DecidableEq, Repr

namespace Lock

/-- A lock that nobody holds. -/
def create (address : UInt64) (subLocks : SubLocks) (label : String) (allocation : Option Nat)
    (varName : Option String) : Lock where
  address := address
  subLocks := subLocks
  label := label
  allocation := allocation
  varName := varName
  flags := 0
  readers := 0
  writers := 0
  history := []

/-- Synchronization that is not backed by memory is a lock at a reserved address. -/
def pseudoName? (address : UInt64) : Option String :=
  if address = 0x42 then some "rcu"
  else if address = 0x43 then some "preempt"
  else if address = 0x44 then some "hardirq"
  else if address = 0x45 then some "softirq"
  else none

def kind (l : Lock) : LockKind := l.subLocks.kind

/-- How often a side is held. -/
def count (l : Lock) : Side → Nat
  | .reader => l.readers
  | .writer => l.writers

/-- The lock with the count of one side replaced. -/
def setCount (l : Lock) (side : Side) (n : Nat) : Lock :=
  match side with
  | .reader => { l with readers := n }
  | .writer => { l with writers := n }

def setFlags (l : Lock) (flags : UInt32) : Lock := { l with flags := flags }

/-- The lowest flag allows a writer to acquire the lock again while it holds it. -/
def isRecursive (l : Lock) : Bool := l.flags &&& 1 != 0

/-- Only a side that the lock has can make it held. -/
def isHeld (l : Lock) : Bool :=
  match l.kind with
  | .readerOnly => decide (0 < l.readers)
  | .writerOnly => decide (0 < l.writers)
  | .readerWriter => decide (0 < l.readers ∨ 0 < l.writers)

def acquireState (l : Lock) (side : Side) : AcquireState :=
  if 0 < l.count side then
    if 0 < l.count side.other then .contradictory
    else
      match side with
      | .reader => .sharedReaders
      | .writer => .writerHeld
  else if 0 < l.count side.other then .otherSideHeld
  else .free

/-- One more acquisition, at position `p`. -/
def beginHold (l : Lock) (p : Position) : Lock :=
  let l' := l.setCount p.side (l.count p.side + 1)
  { l' with history := p :: l.history }

/-- One acquisition of `side` less. A side that is not held stays as it is. -/
def endHold (l : Lock) (side : Side) : Lock := l.setCount side (l.count side - 1)

/-- Forget the latest position. -/
def popPosition (l : Lock) : Lock := { l with history := l.history.tail }

/-- By how much the count of `side` exceeds the number of positions. -/
def residual (l : Lock) (side : Side) : Int := (l.count side : Int) - l.history.length

/-- Forget every position and release `side` completely. -/
def drain (l : Lock) (side : Side) : Lock :=
  { l.setCount side 0 with history := [] }

/-- One side of the lock, as messages name it. -/
def describe (l : Lock) (side : Side) : String :=
  let id := (l.subLocks.id? side).elim "-" Numeral.decimal
  String.intercalate "," [l.kind.name, id, side.name, Numeral.address l.address]

/-! ### Counts and positions after a change -/

@[simp] theorem history_beginHold (l : Lock) (p : Position) :
    (l.beginHold p).history = p :: l.history := rfl

theorem count_beginHold (l : Lock) (p : Position) (side : Side) :
    (l.beginHold p).count side = if p.side = side then l.count side + 1 else l.count side := by
  rcases p with ⟨a, s⟩
  cases s <;> cases side <;> rfl

theorem count_endHold (l : Lock) (s side : Side) :
    (l.endHold s).count side = if s = side then l.count side - 1 else l.count side := by
  cases s <;> cases side <;> rfl

@[simp] theorem history_endHold (l : Lock) (side : Side) :
    (l.endHold side).history = l.history := by
  cases side <;> rfl

theorem count_drain (l : Lock) (s side : Side) :
    (l.drain s).count side = if s = side then 0 else l.count side := by
  cases s <;> cases side <;> rfl

end Lock

end LockTrace
