/-!
# Bytes, lines and characters

Files are bytes. A file is cut into lines first, and each line is read as UTF-8 for itself,
so that one broken line leaves the others readable.
-/

namespace LockTrace

/-- The contents of a file. -/
abbrev Bytes := List UInt8

namespace Bytes

/-- The bytes of a text. -/
def ofChars (cs : List Char) : Bytes := cs.flatMap String.utf8EncodeChar

/-- The bytes of a text. -/
def ofString (s : String) : Bytes := ofChars s.toList

/-- The text with the given bytes, if they are valid UTF-8. -/
def chars? (bs : Bytes) : Option (List Char) :=
  (ByteArray.mk bs.toArray).utf8Decode?.map Array.toList

/-- What a reader says about bytes that are no text. -/
def notText : String := "stream did not contain valid UTF-8"

/-- Put a piece over bytes, from an offset on. Zeros fill what lies between. -/
def overlay (bs : Bytes) (offset : Nat) (piece : Bytes) : Bytes :=
  bs.take offset ++ List.replicate (offset - bs.length) 0 ++ piece ++
    bs.drop (offset + piece.length)

/-! ### Lines -/

def lineFeed : UInt8 := 10

def carriageReturn : UInt8 := 13

/-- A line without the carriage return at its end, if there is one. -/
def dropReturn (line : Bytes) : Bytes :=
  if line.getLast? = some carriageReturn then line.dropLast else line

/-- The lines of a file. A line feed ends a line, and a carriage return before it belongs to
    the end of the line. What follows the last line feed is a line if it is not empty. -/
def lines (bs : Bytes) : List Bytes :=
  let parts := bs.splitOn lineFeed
  let last := parts.getLast?.getD []
  parts.dropLast.map dropReturn ++ (if last.isEmpty then [] else [last])

/-- The bytes up to the end of the last line that has one, and those that follow. -/
def cutLastLine (bs : Bytes) : Bytes × Bytes :=
  let last := (bs.reverse.takeWhile (· != lineFeed)).reverse
  (bs.take (bs.length - last.length), last)

end Bytes

end LockTrace
