import LockTrace.Block
import LockTrace.Table

/-!
# Tables on disk

A table whose rows do not fill a block stays empty on disk until all its rows are there; of a
longer one only the first blocks are on disk before.
-/

namespace LockTrace

/-- What is on disk of a table while it is being written. -/
def Table.written (t : Table) (delimiter : Char) (records : List Record) : Bytes :=
  let lines := (t.lines delimiter records).map Bytes.ofChars
  let w := (lines.map List.length).foldl BlockWriter.putLine .start
  (lines.flatMap (· ++ [Bytes.lineFeed])).take w.written

end LockTrace
