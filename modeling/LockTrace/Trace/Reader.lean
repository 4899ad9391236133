import LockTrace.Text.Bytes
import LockTrace.Text.Numeral
import LockTrace.Trace.Row

/-!
# Reading traces

Every line of a trace is read for itself. The first line is the header, unless it starts
with a digit; empty lines are left out. A line that cannot be read gives an error that
names the line, and the lines after it are read all the same.
-/

namespace LockTrace.Trace

/-! ### What can be wrong with a line -/

/-- What is wrong with the text of a line. -/
inductive RowFault where
  | columnCount (found : Nat)
  | invalidValue (value : List Char) (column : String) (cause : Numeral.Fault)
  /-- The action is not a single character. -/
  | invalidAction (value : List Char)
  | unknownAction (action : Char)
  | missingLockOp
  | unknownLockOp (code : Int)
  | unknownIrqSync (code : Int)
  | flagsTooLarge
deriving DecidableEq, Repr

/-- The causes of a fault, the outermost first. -/
def RowFault.causes : RowFault → List String
  | columnCount found =>
    ["Expected " ++ Numeral.decimal columnNames.length ++ " columns, found " ++
      Numeral.decimal found]
  | invalidValue value column cause =>
    ["Invalid value '" ++ String.ofList value ++ "' in column '" ++ column ++ "'", cause.message]
  | invalidAction value => ["Invalid action '" ++ String.ofList value ++ "'"]
  | unknownAction action => ["Action '" ++ String.singleton action ++ "' was not recognized"]
  | missingLockOp => ["Lock event without lock_op"]
  | unknownLockOp code => ["Lock operation " ++ Numeral.signed code ++ " was not recognized"]
  | unknownIrqSync code =>
    ["IRQ synchronization mode " ++ Numeral.signed code ++ " was not recognized"]
  | flagsTooLarge => [Numeral.Fault.tooLarge.message]

/-- What is wrong with a line. -/
inductive LineFault where
  /-- The bytes cannot be had, or are no text. -/
  | unreadable (cause : String)
  | malformed (fault : RowFault)
deriving DecidableEq, Repr

/-- A fault and the number of its line. -/
structure LineError where
  line : Nat
  fault : LineFault
deriving DecidableEq, Repr

/-- The causes of an error, the outermost first. -/
def LineError.causes (e : LineError) : List String :=
  match e.fault with
  | .unreadable cause => ["Cannot read line " ++ Numeral.decimal e.line, cause]
  | .malformed fault => ("Malformed event in line " ++ Numeral.decimal e.line) :: fault.causes

/-! ### Columns -/

/-- Read a column that may have no value. -/
def readColumn {α : Type} (column : String) (absent : α)
    (read : List Char → Except Numeral.Fault α) (value : List Char) : Except RowFault α :=
  if value = missing then .ok absent
  else (read value).mapError (.invalidValue value column)

/-- The digits of a hexadecimal number, which may follow a mark. -/
def dropHexMark : List Char → List Char
  | '0' :: 'x' :: digits => digits
  | '0' :: 'X' :: digits => digits
  | digits => digits

/-- Whether a number carries the mark of hexadecimal numbers. -/
def hasHexMark (value : List Char) : Bool := dropHexMark value != value

def readDecimal64 (column : String) : List Char → Except RowFault UInt64 :=
  readColumn column 0 (Numeral.readWord64 10)

def readHex64 (column : String) : List Char → Except RowFault UInt64 :=
  readColumn column 0 (fun value => Numeral.readWord64 16 (dropHexMark value))

def readCode (column : String) : List Char → Except RowFault Int :=
  readColumn column 0 (Numeral.readInt 10 (UInt64.size / 2))

def readCtx : List Char → Except RowFault Int64 := readColumn "ctx" 0 Numeral.readInt64

def readLineNumber : List Char → Except RowFault UInt32 := readColumn "line" 0 Numeral.readWord32

/-- Flags are decimal, or hexadecimal if they are marked, and fit into 32 bits. -/
def readFlags (value : List Char) : Except RowFault UInt32 := do
  let n ← if hasHexMark value then readHex64 "flags" value else readDecimal64 "flags" value
  if n.toNat < UInt32.size then .ok (UInt32.ofNat n.toNat) else .error .flagsTooLarge

/-- The text of a column, empty if it has no value. -/
def readText (value : List Char) : String :=
  if value = missing then "" else String.ofList value

/-! ### Rows -/

/-- The lock operation of a row on a lock. -/
def readLockOperation (r : Row) : Except RowFault Operation :=
  if r.lockOp = missing then .error .missingLockOp
  else do
    let opCode ← readCode "lock_op" r.lockOp
    match LockOp.ofCode? opCode with
    | none => .error (.unknownLockOp opCode)
    | some op =>
      let irqCode ← readCode "irq_sync" r.irqSync
      match IrqSync.ofCode? irqCode with
      | none => .error (.unknownIrqSync irqCode)
      | some irqSync =>
        let flags ← readFlags r.flags
        .ok (Operation.ofLockOp op irqSync flags)

/-- The letters that are actions. -/
def isAction (c : Char) : Bool := c = 'a' || c = 'f' || c = 'l' || c = 'r' || c = 'w'

/-- The operation of a row. Only a lock operation looks at the columns of locks. -/
def readOperation (r : Row) (size : UInt64) : Except RowFault Operation :=
  match r.action with
  | ['a'] => .ok (.alloc size)
  | ['f'] => .ok .free
  | ['r'] => .ok (.access .read size)
  | ['w'] => .ok (.access .write size)
  | ['l'] => readLockOperation r
  | [action] => .error (.unknownAction action)
  | value => .error (.invalidAction value)

/-- The event of a row. -/
def readRow (r : Row) : Except RowFault Event := do
  let time ← readDecimal64 "ts" r.time
  let ctx ← readCtx r.ctx
  let address ← readHex64 "ptr" r.address
  let size ← readDecimal64 "size" r.size
  let operation ← readOperation r size
  let line ← readLineNumber r.line
  let preemptCount ← readHex64 "preempt_count" r.preemptCount
  .ok
    { time := time
      ctx := ctx
      operation := operation
      address := address
      typeName := readText r.typeName
      site := ⟨readText r.file, line, readText r.function⟩
      preemptCount := preemptCount }

/-- The event of a line. -/
def readLine (delimiter : Char) (line : List Char) : Except RowFault Event :=
  let columns := Text.splitColumns delimiter line
  match Row.ofColumns? columns with
  | none => .error (.columnCount columns.length)
  | some row => readRow row

/-! ### Traces -/

/-- A line of a trace, read: an event, or what is wrong. -/
abbrev Item := Except LineError Event

/-- The text of a line without the carriage return at its end, if there is one. -/
def dropReturn (line : List Char) : List Char :=
  if line.getLast? = some '\r' then line.dropLast else line

/-- Whether a text starts with an ASCII digit. -/
def startsWithDigit (line : List Char) : Bool := line.head?.any Char.isDigit

/-- What the line with a given number, counted from 1, stands for. A header and an empty line
    stand for nothing. -/
def readNumbered (delimiter : Char) (number : Nat) (bytes : Bytes) : Option Item :=
  match bytes.chars? with
  | none => some (.error ⟨number, .unreadable Bytes.notText⟩)
  | some text =>
    let line := dropReturn text
    if number = 1 ∧ startsWithDigit line = false then none
    else if line.isEmpty then none
    else some ((readLine delimiter line).mapError fun fault => ⟨number, .malformed fault⟩)

/-- What lines stand for, the first of which has the given number. -/
def readLines (delimiter : Char) (number : Nat) (lines : List Bytes) : List Item :=
  (lines.zipIdx number).filterMap fun (line, number) => readNumbered delimiter number line

/-- The lines of a trace, read one by one. -/
def read (delimiter : Char) (bytes : Bytes) : List Item := readLines delimiter 1 bytes.lines

/-- Whether the first line of a trace is no header. -/
def lacksHeader : List Bytes → Bool
  | [] => false
  | first :: _ => first.chars?.any (fun text => startsWithDigit (dropReturn text))

/-- The warning about a trace whose first line is no header. -/
def headerWarning : String := "First line starts with a digit, assuming the trace has no header"

/-- The warnings that come with reading the lines of a trace. -/
def warnings (lines : List Bytes) : List String :=
  if lacksHeader lines then [headerWarning] else []

end LockTrace.Trace
