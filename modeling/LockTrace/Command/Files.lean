import LockTrace.Command.Work
import LockTrace.Conversion.File
import LockTrace.Symbols.Listing
import LockTrace.Text.Blank

/-!
# Converting files

A conversion from files to files: it reads the trace, the symbols and the list of data types
from where its paths say, and writes the tables into a directory. What it has written and
logged by the time it is stopped stays.
-/

namespace LockTrace

/-- Where a conversion reads and writes. -/
structure Paths where
  input : String
  outputDir : String
  symbols : Option String
  dataTypes : Option String
deriving DecidableEq, Repr

/-! ### Lists of data types -/

/-- The data type that a line names. Blank lines and comments name none. -/
def dataTypeOfLine (line : List Char) : Option String :=
  match Text.trim line with
  | [] => none
  | '#' :: _ => none
  | name => some (String.ofList name)

/-- The data types that a file lists, one per line. Nothing is listed if a line is no text. -/
def readDataTypes (bytes : Bytes) : Option (List String) :=
  (bytes.lines.mapM Bytes.chars?).map (·.filterMap dataTypeOfLine)

namespace Work

/-! ### Reading -/

/-- The configuration with the data types that a file lists. -/
def loadDataTypes (config : Config) : Option String → Work Config
  | none => pure config
  | some path => do
    match readDataTypes (← readFile "Cannot open data types" path) with
    | some names => pure { config with dataTypes := some names }
    | none => fail [Bytes.notText]

def loadSymbols : Option String → Work SymbolTable
  | none => pure ∅
  | some path => do
    match SymbolTable.ofListing (← readFile "Cannot open symbols" path) with
    | .error e => fail e.causes
    | .ok table =>
      info ("Loaded " ++ Numeral.decimal table.size ++ " symbols from " ++ path)
      pure table

/-- The contents of a trace when it is opened. -/
def openTrace (path : String) : Work Bytes := do
  let contents ← readFile "Cannot open trace" path
  if Gzip.isCompressed contents then info ("Reading gzip-compressed trace " ++ path)
  pure contents

/-! ### Writing -/

/-- Open a table of a directory. -/
def openTable (dir : String) (t : Table) : Work (Table × Location) := do
  let (place, folder) ← orFailOutput ((← get).folder.create (Path.join dir t.fileName))
  setFolder folder
  pure (t, place)

/-- The table that is open where a path leads. -/
def tableAt? (folder : Folder) (tables : List (Table × Location)) (path : String) :
    Option Table :=
  (tables.find? fun e => some e.2 = (folder.locate path).toOption).map Prod.fst

/-! ### Converting -/

/-- Convert files. The tables are opened in order before anything is written to them. -/
def convertFiles (paths : Paths) (config : Config) : Work Summary := do
  let config ← loadDataTypes config paths.dataTypes
  let symbols ← loadSymbols paths.symbols
  let contents ← openTrace paths.input
  let dir := paths.outputDir
  changeFiles ["Cannot create output directory " ++ dir] (·.makeDirectories dir)
  let tables ← Table.all.mapM (openTable dir)
  info "Reading Delimited trace"
  let c := Conversion.ofFile config symbols contents (tableAt? (← get).folder tables paths.input)
  logLines c.log
  tables.forM fun (t, place) => writeStart place (c.table config.delimiter t)
  match c.result with
  | .error cause => throw (.fatal cause)
  | .ok summary =>
    let txns := Numeral.decimal summary.txns.emitted
    info ("Converted " ++ Numeral.decimal summary.events.total ++ " events into " ++ txns ++
      " TXNs")
    info ("Wrote " ++ txns ++ " TXNs and " ++ Numeral.decimal summary.accesses ++
      " accesses to " ++ dir)
    pure summary

end Work

/-- Convert the files of a folder. -/
def convertFolder (folder : Folder) (paths : Paths) (config : Config) :
    Except Stop Summary × World :=
  (Work.convertFiles paths config).run ⟨folder, [], none⟩

end LockTrace
