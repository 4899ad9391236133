import LockTrace.Text.Numeral

/-!
# Paths

A path is a text of names with slashes between them. It starts at the working directory, or
at the root if a slash stands first. One point as a name stays where it is, and two points
lead one directory up. What an operating system finds wrong with a path, or with what it leads
to, has a message, and a number that the message ends with.
-/

namespace LockTrace

/-- Why a file or a directory cannot be opened, made or written. -/
inductive FileError where
  | notFound
  /-- There is a device, and nothing is connected to it. -/
  | notConnected
  | alreadyExists
  | notDirectory
  | isDirectory
  | noSpace
  | nameTooLong
  /-- The path holds the character that ends a path for the operating system. -/
  | zeroCharacter
deriving DecidableEq, Repr

namespace FileError

/-- The number of an error. A path with a zero character does not get to the operating
    system, which has no number for it. -/
def code? : FileError → Option Nat
  | notFound => some 2
  | notConnected => some 6
  | alreadyExists => some 17
  | notDirectory => some 20
  | isDirectory => some 21
  | noSpace => some 28
  | nameTooLong => some 36
  | zeroCharacter => none

def description : FileError → String
  | notFound => "No such file or directory"
  | notConnected => "No such device or address"
  | alreadyExists => "File exists"
  | notDirectory => "Not a directory"
  | isDirectory => "Is a directory"
  | noSpace => "No space left on device"
  | nameTooLong => "File name too long"
  | zeroCharacter => "file name contained an unexpected NUL byte"

def message (e : FileError) : String :=
  match e.code? with
  | some code => e.description ++ " (os error " ++ Numeral.decimal code ++ ")"
  | none => e.description

end FileError

/-- The names that lead from the root to a file or a directory. -/
abbrev Location := List String

namespace Path

/-! ### The parts of a path -/

/-- What stands between the slashes of a path, nothing included. -/
def pieces (path : String) : List String := (path.toList.splitOn '/').map String.ofList

/-- The names in a path. Slashes beside one another have nothing between them. -/
def parts (path : String) : List String := (pieces path).filter (· != "")

/-- Whether a piece of a path leads anywhere. -/
def moves (piece : String) : Bool := piece != "" && piece != "."

/-- The names in a path without those that stay where they are. -/
def names (path : String) : List String := (pieces path).filter moves

/-- Whether a path starts at the root. -/
def isAbsolute (path : String) : Bool := path.toList.head? = some '/'

def endsInSlash (path : String) : Bool := path.toList.getLast? = some '/'

/-! ### Limits -/

/-- The most bytes that a path can have. -/
def maxSize : Nat := 4095

/-- The most bytes that a name in a path can have. -/
def maxNameSize : Nat := 255

/-- Whether a path can lead anywhere, whatever there is to be found. -/
def check (path : String) : Except FileError Unit :=
  if path.toList.contains (Char.ofNat 0) then .error .zeroCharacter
  else if path = "" then .error .notFound
  else if maxSize < path.utf8ByteSize then .error .nameTooLong
  else .ok ()

/-! ### Paths from paths -/

/-- The path with the given pieces. -/
def ofPieces (pieces : List String) : String := String.intercalate "/" pieces

/-- The absolute path that names a location. -/
def ofLocation (l : Location) : String := "/" ++ ofPieces l

/-- The path of a file in a directory. -/
def join (dir name : String) : String :=
  if dir = "" then name
  else if endsInSlash dir then dir ++ name
  else dir ++ "/" ++ name

/-- The pieces of a path, in reverse, up to the last name that leads anywhere. -/
def upToName (reversed : List String) : List String := reversed.dropWhile (!moves ·)

/-- The pieces of the directory in which a path lies, both in reverse. -/
def above (reversed : List String) : List String := upToName (upToName reversed).tail

/-- The path of the directory in which a path lies, as it is written there. It is empty for
    the working directory and for the root. -/
def parent (path : String) : String :=
  ofPieces (above (pieces path).reverse).reverse

end Path

end LockTrace
