import LockTrace.Conversion
import LockTrace.Table.Block
import LockTrace.Trace.Feed

/-!
# Converting a file

A conversion that reads its trace from a file while it writes its tables to others. One of
its tables can lie in the very file of the trace. Opening the table empties the file, but not
the block that was read before; what is read next is what is on disk of the table by then.
-/

namespace LockTrace

/-- Follow a trace while it is read, in at most the given number of steps. `onDisk` says what
    is in the file of the trace when some records have been written. -/
def Session.runFeed (s : Session) (delimiter : Char) (onDisk : List Record → Bytes) :
    Nat → Trace.Feed → (Session × Option Fatal) × Trace.Feed
  | 0, feed => ((s, none), feed)
  | n + 1, feed =>
    match feed.read delimiter (onDisk s.journal.records) with
    | none => ((s, none), feed)
    | some (items, feed) =>
      match s.runItems items with
      | (s, some cause) => ((s, some cause), feed)
      | (s, none) => s.runFeed delimiter onDisk n feed

namespace Conversion

/-- More blocks than there are in a file. -/
def maxBlocks : Nat := UInt32.size

/-- Convert a trace while it is read. -/
def ofFeed (config : Config) (symbols : SymbolTable) (onDisk : List Record → Bytes)
    (feed : Trace.Feed) : Conversion :=
  let (run, feed) :=
    (Session.initial config symbols).runFeed config.delimiter onDisk maxBlocks feed
  finish feed.warnings run

/-- Convert the trace in a file that stays as it is. It is read as a whole, unless what it
    packs breaks off. -/
def ofContents (config : Config) (symbols : SymbolTable) (contents : Bytes) : Conversion :=
  if Gzip.isCompressed contents then
    match Gzip.decompress contents with
    | .ok bytes => ofBytes config symbols bytes
    | .error _ => ofFeed config symbols (fun _ => contents) (.start contents)
  else ofBytes config symbols contents

/-- Convert the trace in a file that has the given contents when it is opened. `table` is the
    table of the conversion that lies in the same file, if one does. -/
def ofFile (config : Config) (symbols : SymbolTable) (contents : Bytes) :
    Option Table → Conversion
  | none => ofContents config symbols contents
  | some t => ofFeed config symbols (t.written config.delimiter) (.start contents)

end Conversion

end LockTrace
