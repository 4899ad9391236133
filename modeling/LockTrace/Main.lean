import LockTrace.Command.Run
import Std.Time.DateTime.Timestamp

/-!
# The program

The program gathers the files that its command line names, works out the run, writes the
files that the run changed, and prints what the run prints.
-/

namespace LockTrace.Program

open Command

/-! ### Before the run -/

/-- The present moment. -/
def now : IO Moment := do
  let t ← Std.Time.Timestamp.now
  return ⟨t.val.second.val.toNat, t.val.nano.val.toNat⟩

/-- The environment, with the variables to which the path of the error log refers. -/
def environment (o : Options) : IO Environment := do
  let names := LogPath.namesIn (o.errorLog.getD "").toList
  let values ← names.filterMapM fun name => do
    return (← IO.getEnv name).map fun value => (name, value)
  return ⟨← now, values⟩

/-- The paths that a run reads. -/
def inputPaths (o : Options) : List String :=
  o.paths.input :: [o.symbols, o.dataTypes].filterMap id

/-- The paths that a run writes. -/
def outputPaths (env : Environment) (o : Options) : List String :=
  let tables := Table.all.map fun t => Path.join o.paths.outputDir t.fileName
  o.paths.outputDir :: tables ++
    [o.summary, o.errorLog.bind (LogPath.expand? env)].filterMap id

/-- What stands at a path, if it can be opened. What is not a file is read only if it is an
    input. -/
def probe (isInput : Bool) (path : String) : IO (Option Entry) := do
  try
    let info ← ((← IO.currentDir) / path).metadata
    match info.type with
    | .dir => return some .directory
    | .file => return some (.file (← IO.FS.readBinFile path).toList)
    | _ =>
      if isInput then return some (.file (← IO.FS.readBinFile path).toList)
      else return some (.device (.stream []))
  catch _ => return none

/-- The location to which a location leads, if there is anything. -/
def target (l : Location) : IO Location := do
  try return Path.names (← IO.FS.realPath (Path.ofLocation l)).toString
  catch _ => return l

/-- Take over what stands at the place to which a name leads from a location. -/
def gatherName (isInput : Bool) (place : Folder × Location) (name : String) :
    IO (Folder × Location) := do
  let (folder, l) := place
  let l := folder.move l name
  let real ← target l
  let folder := if real = l then folder else folder.link l real
  if (folder.get? real).isSome then return (folder, real)
  match ← probe isInput (Path.ofLocation real) with
  | some entry => return (folder.putDeep real entry, real)
  | none => return (folder, real)

/-- Take over what stands at the places that the names of a path lead to. -/
def gather (isInput : Bool) (folder : Folder) (path : String) : IO Folder := do
  let (folder, _) ← (Path.parts path).foldlM (gatherName isInput) (folder, folder.start path)
  return folder

/-- The files that the options name. -/
def gatherAll (env : Environment) (o : Options) : IO Folder := do
  let dir := Path.names (← IO.currentDir).toString
  let folder ← (inputPaths o).foldlM (gather true) (Folder.standard dir)
  (outputPaths env o).foldlM (gather false) folder

/-! ### After the run -/

/-- Write the files and make the directories that are new or changed, and pass on what a run
    has written to streams. -/
def save (before after : Folder) : IO Unit :=
  after.entries.forM fun (l, entry) =>
    if before.get? l = some entry then pure ()
    else
      let path := Path.ofLocation l
      match entry with
      | .directory => IO.FS.createDirAll path
      | .file bytes => IO.FS.writeBinFile path ⟨bytes.toArray⟩
      | .device (.stream passed) =>
        IO.FS.withFile path .append fun handle => handle.write ⟨passed.toArray⟩
      | _ => pure ()

end LockTrace.Program

open LockTrace in
/-- Run the program on the words of its command line. -/
def main (words : List String) : IO UInt32 := do
  let (env, before) ←
    match Command.Request.ofWords words with
    | .convert options => do
      let env ← Program.environment options
      pure (env, ← Program.gatherAll env options)
    | _ => pure (⟨← Program.now, []⟩, Folder.standard [])
  let outcome := Command.run env before words
  Program.save before outcome.folder
  IO.print outcome.stdout
  outcome.stderr.forM fun line => IO.eprintln line.text
  return UInt32.ofNat outcome.exitCode
