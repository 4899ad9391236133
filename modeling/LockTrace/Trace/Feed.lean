import LockTrace.Gzip.Unpacker
import LockTrace.Trace.Reader

/-!
# Reading a trace piece by piece

A trace is read in blocks, and the lines of a block are followed before the next block is
read. As a rule this does not show. It does when the file of the trace changes on the way, as
it does under a conversion that writes one of its tables there: then a block holds what is in
the file when it is asked for.

The end of the file ends a line that was begun. After such a line the file is asked once
more, as it can have grown by then.
-/

namespace LockTrace.Trace

/-! ### Sources -/

/-- Where the bytes of a trace come from. -/
inductive Source where
  | plain (reader : BlockReader)
  | packed (unpacker : Gzip.Unpacker)

namespace Source

/-- Open a trace. The first block is read at once, and shows whether the trace is
    compressed. -/
def start (contents : Bytes) : Source :=
  if Gzip.isCompressed contents then .packed (.start contents)
  else .plain (BlockReader.start.fill blockSize contents)

/-- Take the next bytes of a trace whose file has the given contents. There are none at the
    end. -/
def read (contents : Bytes) : Source → Except Gzip.Fault (Bytes × Source)
  | .plain r =>
    let r := r.fill blockSize contents
    .ok (r.waiting, .plain { r with waiting := [] })
  | .packed u => (u.read contents).map fun (piece, u) => (piece, .packed u)

end Source

/-! ### Lines -/

/-- A trace that is being read. -/
structure Feed where
  source : Source
  /-- The start of a line whose end has not been read. -/
  begun : Bytes
  /-- How many lines have been read. -/
  lineCount : Nat
  /-- The warnings that came with reading them. -/
  warnings : List String

namespace Feed

def start (contents : Bytes) : Feed := ⟨.start contents, [], 0, []⟩

/-- Go on from a source, with the start of a line, after having read the given lines. -/
def advance (f : Feed) (source : Source) (begun : Bytes) (lines : List Bytes) : Feed where
  source := source
  begun := begun
  lineCount := f.lineCount + lines.length
  warnings := if f.lineCount = 0 then Trace.warnings lines else f.warnings

/-- Read on in a trace whose file has the given contents: what the lines stand for that are
    complete now, and where to go on. There is nothing to go on with at the end. -/
def read (f : Feed) (delimiter : Char) (contents : Bytes) : Option (List Item × Feed) :=
  let number := f.lineCount + 1
  match f.source.read contents with
  | .error fault => some ([.error ⟨number, .unreadable fault.message⟩], f)
  | .ok (piece, source) =>
    if piece = [] ∧ f.begun = [] then none
    else
      let text := f.begun ++ piece
      let (complete, begun) := if piece = [] then (text, []) else text.cutLastLine
      let lines := complete.lines
      some (readLines delimiter number lines, f.advance source begun lines)

end Feed

end LockTrace.Trace
