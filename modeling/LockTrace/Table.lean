import LockTrace.Fatal
import LockTrace.Record
import LockTrace.Text.Columns

/-!
# The output tables

Each kind of row has a table of its own: a header with the names of the columns, and one
line per row in the order in which the rows were written.
-/

namespace LockTrace

/-- The tables of a conversion. -/
inductive Table where
  | dataTypes
  | allocations
  | accesses
  | locks
  | locksHeld
  | txns
deriving DecidableEq, Repr

namespace Table

/-- The tables in the order in which they are opened. -/
def all : List Table := [dataTypes, allocations, accesses, locks, locksHeld, txns]

/-- The name of the file of a table. -/
def fileName : Table → String
  | dataTypes => "data_types.csv"
  | allocations => "allocations.csv"
  | accesses => "accesses.csv"
  | locks => "locks.csv"
  | locksHeld => "locks_held.csv"
  | txns => "txns.csv"

/-- The names of the columns of a table. -/
def columnNames : Table → List String
  | dataTypes => ["id", "name"]
  | allocations => ["id", "type_id", "ptr", "size", "start", "end"]
  | accesses =>
    ["id", "alloc_id", "txn_id", "ts", "type", "size", "address", "file", "line", "fn"]
  | locks => ["id", "ptr", "embedded_in", "locktype", "sub_lock", "lock_var_name", "flags"]
  | locksHeld =>
    ["txn_id", "lock_id", "start", "lastFile", "lastLine", "lastFn", "lastPreemptCount",
      "lastIRQSync"]
  | txns => ["id", "start", "end"]

/-- What a table holds in place of a missing value. -/
def missing : String := "\\N"

open Numeral (decimal)

def optional (value : Option String) : String := value.getD missing

/-- The table of a record and its columns there. The request to flush has none. -/
def columns? : Record → Option (Table × List String)
  | .dataType r => some (dataTypes, [decimal r.id, r.name])
  | .allocation r =>
    some (allocations,
      [decimal r.id, decimal r.typeId, decimal r.base.toNat, decimal r.size.toNat,
        decimal r.start.toNat, optional (r.stop.map (decimal ·.toNat))])
  | .access r =>
    some (accesses,
      [decimal r.id, optional (r.allocation.map decimal), optional (r.txn.map decimal),
        decimal r.time.toNat, String.singleton r.kind.letter, decimal r.size.toNat,
        decimal r.address.toNat, r.site.file, decimal r.site.line.toNat, r.site.function])
  | .lock r =>
    some (locks,
      [decimal r.id, decimal r.address.toNat, optional (r.allocation.map decimal), r.label,
        String.singleton r.side.letter, optional r.varName, decimal r.flags.toNat])
  | .held r =>
    some (locksHeld,
      [decimal r.txn, decimal r.lock, decimal r.taken.start.toNat, r.taken.site.file,
        decimal r.taken.site.line.toNat, r.taken.site.function,
        decimal r.taken.preemptCount.toNat, r.taken.irqSync.name])
  | .txn r => some (txns, [decimal r.id, decimal r.start.toNat, decimal r.stop.toNat])
  | .flush => none

/-- Columns as one line. -/
def line (delimiter : Char) (columns : List String) : List Char :=
  Text.joinColumns delimiter (columns.map String.toList)

/-- The columns of the records that belong into a table, in order. -/
def rows (t : Table) (records : List Record) : List (List String) :=
  (records.filterMap columns?).filterMap fun (t', columns) =>
    if t' = t then some columns else none

/-- The lines of a table with the rows of the given records. -/
def lines (t : Table) (delimiter : Char) (records : List Record) : List (List Char) :=
  (t.columnNames :: t.rows records).map (line delimiter)

/-- The text of a table with the rows of the given records. -/
def print (t : Table) (delimiter : Char) (records : List Record) : String :=
  Text.ofLines (t.lines delimiter records)

/-- Open the tables in order, where `refusal?` says why a table cannot be opened. -/
def openAll (refusal? : Table → Option String) : Except Fatal Unit :=
  match all.findSome? refusal? with
  | some cause => .error (.output cause)
  | none => .ok ()

end Table

end LockTrace
