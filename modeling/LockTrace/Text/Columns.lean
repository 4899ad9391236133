/-!
# Rows of columns

A row is written with one delimiter between two columns, and read by cutting it at every
delimiter. Nothing is quoted, so a column that holds the delimiter is read as two.
-/

namespace LockTrace.Text

/-- The columns of a row in one line. -/
def joinColumns (delimiter : Char) (columns : List (List Char)) : List Char :=
  [delimiter].intercalate columns

/-- The columns of a line. An empty line has one empty column. -/
def splitColumns (delimiter : Char) (line : List Char) : List (List Char) :=
  line.splitOn delimiter

/-- Lines as one text, with a line feed after each. -/
def ofLines (lines : List (List Char)) : String :=
  String.ofList (lines.flatMap (· ++ ['\n']))

end LockTrace.Text
