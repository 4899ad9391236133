import LockTrace.Event
import LockTrace.Text.Columns

/-!
# The columns of a trace

A line of a trace has fourteen columns. A column without a value holds the word NULL.
-/

namespace LockTrace.Trace

/-- The word that stands for a missing value. -/
def missing : List Char := "NULL".toList

/-- The texts of the fourteen columns. -/
structure Row where
  time : List Char
  ctx : List Char
  action : List Char
  address : List Char
  size : List Char
  typeName : List Char
  /-- The member of a structure that is the lock; it is not used. -/
  lockMember : List Char
  lockOp : List Char
  file : List Char
  line : List Char
  function : List Char
  preemptCount : List Char
  irqSync : List Char
  flags : List Char
deriving DecidableEq, Repr

/-- The names of the columns, which are the header of a trace. -/
def columnNames : List String :=
  ["ts", "ctx", "action", "ptr", "size", "type", "lock_member", "lock_op", "file", "line", "fn",
    "preempt_count", "irq_sync", "flags"]

namespace Row

def columns (r : Row) : List (List Char) :=
  [r.time, r.ctx, r.action, r.address, r.size, r.typeName, r.lockMember, r.lockOp, r.file, r.line,
    r.function, r.preemptCount, r.irqSync, r.flags]

def ofColumns? : List (List Char) → Option Row
  | [time, ctx, action, address, size, typeName, lockMember, lockOp, file, line, function,
      preemptCount, irqSync, flags] =>
    some ⟨time, ctx, action, address, size, typeName, lockMember, lockOp, file, line, function,
      preemptCount, irqSync, flags⟩
  | _ => none

theorem ofColumns?_columns (r : Row) : ofColumns? r.columns = some r := rfl

theorem eq_columns_of_ofColumns? {cs : List (List Char)} {r : Row} (h : ofColumns? cs = some r) :
    cs = r.columns := by
  unfold ofColumns? at h
  split at h
  · obtain rfl := Option.some.inj h
    rfl
  · cases h

end Row

end LockTrace.Trace
