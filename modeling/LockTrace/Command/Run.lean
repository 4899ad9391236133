import LockTrace.Command.Arguments
import LockTrace.Command.Files
import LockTrace.Command.LogPath
import LockTrace.Summary.Json

/-!
# Runs of the program

A run takes its environment, the words of a command line and the files that are there. It
comes to an exit code, to what it prints, and to the files as they are then.
-/

namespace LockTrace.Command

/-! ### What is printed -/

/-- A line of the error output. -/
inductive Console where
  | log (line : LogLine)
  | error (message : String)
deriving DecidableEq, Repr

def Console.text : Console → String
  | log line => line.text
  | error message => "error: " ++ message

/-- What a run comes to. -/
structure Outcome where
  exitCode : Nat
  stdout : String
  stderr : List Console
  folder : Folder

/-- The name and the version of the program. -/
def versionText : String := programName ++ " 0.1.0\n"

def usageText : String := "Usage: " ++ programName ++ " [OPTIONS] <INPUT>\n"

/-- A line of the help text on one option: its names, and what it does. -/
def helpLine (names : String) (meaning : String) : String :=
  "  " ++ names ++ String.ofList (List.replicate (31 - names.length) ' ') ++ meaning ++ "\n"

def helpText : String :=
  "Reconstructs which locks were held during which memory accesses from a trace of an " ++
  "instrumented kernel\n\n" ++ usageText ++
  "\nArguments:\n  <INPUT>  The trace to convert (plain or gzip-compressed)\n\nOptions:\n" ++
  helpLine "-o, --output <OUTPUT>"
    "The directory the output tables are written to [default: .]" ++
  helpLine "-d, --delimiter <DELIMITER>"
    "The column delimiter of the trace and the output tables [default: ;]" ++
  helpLine "    --keep-empty-txns" "Also write transactions without any memory access" ++
  helpLine "    --kernel-dir <KERNEL_DIR>"
    "A prefix to strip from the source file paths of the trace" ++
  helpLine "    --symbols <SYMBOLS>"
    "Output of nm -S for the traced kernel, used to name static locks" ++
  helpLine "    --data-types <DATA_TYPES>"
    "A file listing the data types to track, one per line" ++
  helpLine "    --summary <SUMMARY>" "Write a JSON summary of the conversion to this file" ++
  helpLine "    --error-log <ERROR_LOG>" "Write all warnings and errors to this file" ++
  helpLine "-v, --verbose..." "Log more (-v for debug, -vv for trace)" ++
  helpLine "-q, --quiet" "Log only warnings and errors" ++
  helpLine "-h, --help" "Print help" ++
  helpLine "-V, --version" "Print version"

/-! ### Options and their defaults -/

namespace Options

def paths (o : Options) : Paths where
  input := o.input.getD ""
  outputDir := o.output.getD "."
  symbols := o.symbols
  dataTypes := o.dataTypes

def config (o : Options) : Config where
  skipEmpty := !o.keepEmptyTxns
  delimiter := o.delimiter.getD defaultDelimiter
  kernelDir := o.kernelDir
  dataTypes := Option.none

/-- The least level of the log lines that are printed. -/
def level (o : Options) : Level :=
  if o.quiet then .warn else if o.verbose = 0 then .info else .debug

end Options

/-! ### The conversion -/

/-- The warnings about what was found suspicious, if anything was. -/
def summaryWarnings (s : Summary) : List LogLine :=
  let n := s.inconsistencyCount
  if n = 0 then []
  else
    ⟨.warn, "The trace contained " ++ Numeral.decimal n.toNat ++ " inconsistencies"⟩ ::
      s.inconsistencies.entries.map fun (name, count) =>
        ⟨.warn, "  " ++ name ++ ": " ++ Numeral.decimal count⟩

/-- Convert as the options say. The summary comes last: it takes the place even of what is in
    the error log by then. -/
def convert (o : Options) : Work Unit := do
  let config := o.config
  if config.delimiter = '\n' ∨ config.delimiter = '\r' then
    Work.fail ["The delimiter cannot be a line break"]
  let summary ← Work.convertFiles o.paths config
  Work.logLines (summaryWarnings summary)
  match o.summary with
  | Option.none => pure ()
  | some path =>
    Work.changeFiles ["Cannot write summary " ++ path]
      (·.write path (Bytes.ofString summary.toJson))

/-! ### Runs -/

/-- The line about the exit code of a run that was stopped. -/
def exitLine (stop : Stop) : LogLine :=
  ⟨.info, "Exiting with " ++ Numeral.decimal stop.exitCode ++ ": " ++
    exitDescription stop.exitCode⟩

/-- Whether a line is printed if log lines need at least a given level. -/
def Console.isPrinted (level : Level) : Console → Bool
  | log line => line.isAtLeast level
  | error _ => true

/-- What a run comes to that has brought forth a world, with the lines that are printed after
    its log. -/
def Outcome.ofWorld (o : Options) (exitCode : Nat) (world : World) (ending : List Console) :
    Outcome where
  exitCode := exitCode
  stdout := ""
  stderr := (world.log.map Console.log ++ ending).filter (Console.isPrinted o.level)
  folder := world.folder

/-- Convert as the options say, with the file for warnings and errors at the given path. -/
def runConversion (folder : Folder) (o : Options) (errorLog : Option String) : Outcome :=
  match World.start folder errorLog with
  | .error e => ⟨1, "", [.error ("Cannot set up logging: " ++ e.message)], folder⟩
  | .ok world =>
    match (convert o).run world with
    | (.ok (), world) => .ofWorld o 0 world []
    | (.error stop, world) =>
      let history := explain stop.history
      .ofWorld o stop.exitCode (world.addLog [⟨.error, history⟩])
        [.error history, .log (exitLine stop)]

/-- Convert as the options say. A format for the time that has no text, in the path of the
    error log, ends the program before it has done anything. -/
def runOptions (env : Environment) (folder : Folder) (o : Options) : Outcome :=
  match o.errorLog with
  | Option.none => runConversion folder o Option.none
  | some path =>
    match LogPath.expand? env path with
    | Option.none => ⟨101, "", [], folder⟩
    | some path => runConversion folder o (some path)

/-- Do what a command line asks for. -/
def run (env : Environment) (folder : Folder) (words : List String) : Outcome :=
  match Request.ofWords words with
  | .usage => ⟨2, "", [.error "the command line is not understood"], folder⟩
  | .version => ⟨0, versionText, [], folder⟩
  | .help => ⟨0, helpText, [], folder⟩
  | .convert o => runOptions env folder o

end LockTrace.Command
