import LockTrace.Log
import LockTrace.Session.Basic
import LockTrace.Table
import LockTrace.Trace.Reader

/-!
# Converting a trace

A conversion reads the lines of a trace one by one and follows their events. It ends at the
first line that cannot be read, at the first event that cannot be followed, or at the end of
the trace, where everything that is left is written.
-/

namespace LockTrace

/-- Follow the lines of a trace until one of them is the last. -/
def Session.runItems (s : Session) : List Trace.Item → Session × Option Fatal
  | [] => (s, none)
  | .error e :: _ => (s, some (.input e.causes))
  | .ok event :: rest =>
    match s.step event with
    | (s, none) => s.runItems rest
    | (s, some cause) => (s, some cause)

/-- What a conversion comes to: what it has brought forth, and its numbers unless it was
    stopped. -/
structure Conversion where
  /-- The warnings that came with reading the trace. -/
  warnings : List String
  journal : Journal
  result : Except Fatal Summary

namespace Conversion

/-- End a conversion that has followed its trace. -/
def finish (warnings : List String) : Session × Option Fatal → Conversion
  | (s, some cause) => ⟨warnings, s.journal, .error cause⟩
  | (s, none) =>
    let s := s.finish
    ⟨warnings, s.journal, .ok s.summary⟩

/-- Convert the bytes of a trace. -/
def ofBytes (config : Config) (symbols : SymbolTable) (bytes : Bytes) : Conversion :=
  let lines := bytes.lines
  finish (Trace.warnings lines)
    ((Session.initial config symbols).runItems (Trace.readLines config.delimiter 1 lines))

/-- The text of a table as far as it was written. -/
def table (c : Conversion) (delimiter : Char) (t : Table) : String :=
  t.print delimiter c.journal.records

/-- The log lines of the conversion. -/
def log (c : Conversion) : List LogLine :=
  c.warnings.map (⟨.warn, ·⟩) ++ c.journal.outputs.toList.filterMap Output.logLine?

end Conversion

end LockTrace
