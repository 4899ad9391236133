import LockTrace.Lock.Side

/-!
# Events

A trace is a list of events. An event happens at a time, in an execution context of the
traced kernel, and concerns one address: it allocates or frees memory there, acquires or
releases a side of the lock there, or reads or writes memory there.
-/

namespace LockTrace

/-- A place in the source code of the traced kernel. -/
structure Site where
  file : String
  line : UInt32
  function : String
deriving DecidableEq, Repr

/-- The site of an event that names none. -/
def Site.unknown : Site := ⟨"", 0, ""⟩

instance : Inhabited Site := ⟨Site.unknown⟩

/-- Whether an access reads or writes. -/
inductive AccessKind where
  | read
  | write
deriving DecidableEq, Repr

/-- The abbreviation of traces and of the accesses table. -/
def AccessKind.letter : AccessKind → Char
  | read => 'r'
  | write => 'w'

/-- What an event does at its address. -/
inductive Operation where
  | alloc (size : UInt64)
  | free
  | acquire (side : Side) (irqSync : IrqSync) (flags : UInt32)
  | release (side : Side) (flags : UInt32)
  | access (kind : AccessKind) (size : UInt64)
deriving DecidableEq, Repr

namespace Operation

/-- The letter a trace uses for the operation. -/
def letter : Operation → Char
  | alloc _ => 'a'
  | free => 'f'
  | acquire .. => 'l'
  | release .. => 'l'
  | access kind _ => kind.letter

/-- The lock operation, for events on locks. -/
def lockOp? : Operation → Option LockOp
  | acquire side _ _ => some (.acquire side)
  | release side _ => some (.release side)
  | _ => none

/-- The event operation for a lock operation. A release does not say how interrupts were
    kept out. -/
def ofLockOp (op : LockOp) (irqSync : IrqSync) (flags : UInt32) : Operation :=
  match op with
  | .acquire side => acquire side irqSync flags
  | .release side => release side flags

end Operation

/-- One event of a trace. -/
structure Event where
  time : UInt64
  /-- The task, or one of the negative numbers of the interrupt contexts. -/
  ctx : Int64
  operation : Operation
  address : UInt64
  /-- The label of the lock's type, or the data type of an allocation. -/
  typeName : String
  site : Site
  preemptCount : UInt64
deriving DecidableEq, Repr

end LockTrace
