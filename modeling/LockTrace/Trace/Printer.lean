import LockTrace.Text.Numeral
import LockTrace.Trace.Row

/-!
# Writing traces

A trace is written with a header and one line per event. Columns that an event has no use
for are written without a value.
-/

namespace LockTrace.Trace

open Numeral (decimal signed hexadecimal)

/-- A text in its column. The empty text is written as a missing value. -/
def printText (s : String) : List Char := if s.isEmpty then missing else s.toList

/-- The row of an event. -/
def printRow (e : Event) : Row where
  time := (decimal e.time.toNat).toList
  ctx := (signed e.ctx.toInt).toList
  action := [e.operation.letter]
  address := (hexadecimal e.address.toNat).toList
  size :=
    match e.operation with
    | .alloc size => (decimal size.toNat).toList
    | .access _ size => (decimal size.toNat).toList
    | _ => missing
  typeName := printText e.typeName
  lockMember := missing
  lockOp :=
    match e.operation.lockOp? with
    | some op => (decimal op.code).toList
    | none => missing
  file := printText e.site.file
  line := (decimal e.site.line.toNat).toList
  function := printText e.site.function
  preemptCount := (hexadecimal e.preemptCount.toNat).toList
  irqSync :=
    match e.operation with
    | .acquire _ irqSync _ => (decimal irqSync.code).toList
    | .release .. => (decimal IrqSync.none.code).toList
    | _ => missing
  flags :=
    match e.operation with
    | .acquire _ _ flags => (decimal flags.toNat).toList
    | .release _ flags => (decimal flags.toNat).toList
    | _ => missing

/-- The line of an event. -/
def printLine (delimiter : Char) (e : Event) : List Char :=
  Text.joinColumns delimiter (printRow e).columns

/-- The header of a trace. -/
def header (delimiter : Char) : List Char :=
  Text.joinColumns delimiter (columnNames.map String.toList)

/-- The text of a trace. -/
def print (delimiter : Char) (events : List Event) : String :=
  Text.ofLines (header delimiter :: events.map (printLine delimiter))

/-- Write events as they come, up to the first that failed to come. The text written by then,
    and the failure, if there was one. -/
def printItems {ε : Type} (delimiter : Char) (items : List (Except ε Event)) :
    String × Option ε :=
  let events := items.takeWhile (fun i => i.isOk)
  let failure := (items.drop events.length).head?.bind fun i =>
    match i with
    | .error cause => some cause
    | .ok _ => none
  (print delimiter (events.filterMap Except.toOption), failure)

end LockTrace.Trace
