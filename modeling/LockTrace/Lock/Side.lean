/-!
# Sides, operations and kinds of locks

A lock has a reader side, a writer side, or both. A lock operation acquires or releases
one side. Which sides a lock has is fixed by the label of its type.
-/

namespace LockTrace

/-! ### Sides -/

/-- One side of a lock. -/
inductive Side where
  | reader
  | writer
deriving DecidableEq, Repr

namespace Side

def other : Side → Side
  | reader => writer
  | writer => reader

/-- The abbreviation of the locks table. -/
def letter : Side → Char
  | reader => 'r'
  | writer => 'w'

/-- The name used in messages. -/
def name : Side → String
  | reader => "READER_LOCK"
  | writer => "WRITER_LOCK"

@[simp] theorem other_other (s : Side) : s.other.other = s := by cases s <;> rfl

theorem other_ne (s : Side) : s.other ≠ s := by cases s <;> decide

theorem eq_other_of_ne {s s' : Side} (h : s ≠ s') : s = s'.other := by
  cases s <;> cases s' <;> first | rfl | exact absurd rfl h

end Side

/-! ### Operations -/

/-- A lock operation: one side is acquired or released. -/
inductive LockOp where
  | acquire (side : Side)
  | release (side : Side)
deriving DecidableEq, Repr

namespace LockOp

def side : LockOp → Side
  | acquire s => s
  | release s => s

def isAcquire : LockOp → Bool
  | acquire _ => true
  | release _ => false

/-- The number a trace uses for the operation. -/
def code : LockOp → Nat
  | acquire .reader => 0
  | acquire .writer => 1
  | release .reader => 2
  | release .writer => 3

/-- The operation with a given number. -/
def ofCode? (i : Int) : Option LockOp :=
  if i = 0 then some (acquire .reader)
  else if i = 1 then some (acquire .writer)
  else if i = 2 then some (release .reader)
  else if i = 3 then some (release .writer)
  else none

/-- The name used in messages. -/
def name : LockOp → String
  | acquire .reader => "P_READ"
  | acquire .writer => "P_WRITE"
  | release .reader => "V_READ"
  | release .writer => "V_WRITE"

theorem ofCode?_code (op : LockOp) : ofCode? op.code = some op := by
  rcases op with s | s <;> cases s <;> decide

end LockOp

/-! ### Interrupts -/

/-- How interrupts were kept out when a lock was acquired. -/
inductive IrqSync where
  | none
  | irq
  /-- Interrupts were off before, and their state was saved. -/
  | irqNested
  /-- Only bottom halves were kept out. -/
  | bh
deriving DecidableEq, Repr

namespace IrqSync

/-- The number a trace uses for the mode. -/
def code : IrqSync → Nat
  | none => 0
  | irq => 1
  | irqNested => 2
  | bh => 3

/-- The mode with a given number. -/
def ofCode? (i : Int) : Option IrqSync :=
  if i = 0 then some none
  else if i = 1 then some irq
  else if i = 2 then some irqNested
  else if i = 3 then some bh
  else Option.none

/-- The name used in the table of held locks. -/
def name : IrqSync → String
  | none => "LOCK_NONE"
  | irq => "LOCK_IRQ"
  | irqNested => "LOCK_IRQ_NESTED"
  | bh => "LOCK_BH"

theorem ofCode?_code (m : IrqSync) : ofCode? m.code = some m := by
  cases m <;> decide

end IrqSync

/-! ### Kinds -/

/-- Which sides the locks of a type have. -/
inductive LockKind where
  | readerOnly
  | writerOnly
  | readerWriter
deriving DecidableEq, Repr

namespace LockKind

/-- Labels of locks that have one owner at a time. -/
def writerLabels : List String :=
  ["raw_spinlock_t", "spinlock_t", "mutex", "semaphore", "bit_spin_lock", "sleep mutex",
    "spin mutex", "preempt", "hardirq", "softirq"]

/-- Labels of locks that are only ever shared. -/
def readerLabels : List String := ["rcu"]

/-- Labels of locks that have readers and writers. -/
def sharedLabels : List String :=
  ["rwlock_t", "rw_semaphore", "sx", "rw", "sleepable rm", "rm", "lockmgr"]

/-- The kind of the locks with a given label, if the label is known. -/
def ofLabel? (label : String) : Option LockKind :=
  if label ∈ writerLabels then some writerOnly
  else if label ∈ readerLabels then some readerOnly
  else if label ∈ sharedLabels then some readerWriter
  else none

def supports : LockKind → Side → Bool
  | readerWriter, _ => true
  | readerOnly, .reader => true
  | writerOnly, .writer => true
  | _, _ => false

/-- The name used in messages. -/
def name : LockKind → String
  | readerOnly => "RLock"
  | writerOnly => "WLock"
  | readerWriter => "RWLock"

end LockKind

end LockTrace
