import LockTrace.Fatal
import LockTrace.Folder
import LockTrace.Log

/-!
# The work of a run

A run does its work step by step. A step can change files, log, and end the run early; what
was written and logged before stays. Warnings and errors also go to a file of their own, if
there is one, as soon as they are logged.
-/

namespace LockTrace

/-- Why a run ends early. -/
inductive Stop where
  | fatal (cause : Fatal)
  /-- Anything else, with its causes, the outermost first. -/
  | failure (causes : List String)
deriving DecidableEq, Repr

namespace Stop

def name : Stop → String
  | fatal cause => cause.name
  | failure _ => "Failure"

def message : Stop → String
  | fatal cause => cause.message
  | failure causes => explain causes

def exitCode : Stop → Nat
  | fatal cause => cause.exitCode
  | failure _ => 1

/-- The message with all that led to it, the outermost first. The message about an output
    ends with its cause, which then follows once more. -/
def history : Stop → List String
  | fatal (.output cause) => [(Fatal.output cause).message, cause]
  | fatal cause => [cause.message]
  | failure causes => causes

end Stop

/-! ### What a run changes -/

/-- The file for warnings and errors: where it is, and how much has been written to it. It can
    share its place with another file of the run. -/
structure ErrorLog where
  place : Location
  size : Nat
deriving DecidableEq, Repr

/-- The files and the log of a run. -/
structure World where
  folder : Folder
  log : List LogLine
  errorLog : Option ErrorLog
deriving DecidableEq, Repr

namespace World

/-- The world at the start of a run. The file for warnings and errors is empty, and the
    directories that lead to it are made. -/
def start (folder : Folder) : Option String → Except FileError World
  | none => .ok ⟨folder, [], none⟩
  | some path => do
    let folder ← folder.makeDirectories (Path.parent path)
    let (place, folder) ← folder.create path
    .ok ⟨folder, [], some ⟨place, 0⟩⟩

/-- Write log lines to the file for warnings and errors. If they cannot be written, the run
    goes on without. -/
def writeErrors (w : World) (lines : List LogLine) : World :=
  match w.errorLog with
  | none => w
  | some e =>
    let errors := (lines.filter (·.isAtLeast .warn)).map fun l => l.text ++ "\n"
    let text := Bytes.ofString (String.join errors)
    match w.folder.writeAt e.place e.size text with
    | .error _ => w
    | .ok folder =>
      { w with folder := folder, errorLog := some { e with size := e.size + text.length } }

/-- Log lines. -/
def addLog (w : World) (lines : List LogLine) : World :=
  { w with log := w.log ++ lines }.writeErrors lines

end World

/-! ### Steps -/

/-- A part of a run. -/
abbrev Work := ExceptT Stop (StateM World)

namespace Work

def fail {α : Type} (causes : List String) : Work α := throw (.failure causes)

def logLines (lines : List LogLine) : Work Unit := modify (·.addLog lines)

def info (message : String) : Work Unit := logLines [⟨.info, message⟩]

/-- Go on with what came out, or fail with the error in the given context. -/
def orFail {α : Type} (context : List String) : Except FileError α → Work α
  | .ok a => pure a
  | .error e => fail (context ++ [e.message])

/-- Go on with what came out, or fail with the error of an output. -/
def orFailOutput {α : Type} : Except FileError α → Work α
  | .ok a => pure a
  | .error e => throw (.fatal (.output e.message))

/-- The contents of a file. What keeps it from being opened is told in context, what keeps it
    from being read is not. -/
def readFile (context path : String) : Work Bytes := do
  let entry ← orFail [context ++ " " ++ path] ((← get).folder.openEntry path)
  orFail [] (Folder.contents entry)

/-- Put a folder into the place of the files. -/
def setFolder (folder : Folder) : Work Unit := modify fun w => { w with folder := folder }

/-- Change the files, or fail with the error in the given context. -/
def changeFiles (context : List String) (change : Folder → Except FileError Folder) :
    Work Unit := do
  setFolder (← orFail context (change (← get).folder))

/-- Write to an open output from its start on. -/
def writeStart (place : Location) (text : String) : Work Unit := do
  setFolder (← orFailOutput ((← get).folder.writeAt place 0 (Bytes.ofString text)))

end Work

end LockTrace
