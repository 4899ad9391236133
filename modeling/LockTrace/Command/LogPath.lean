import LockTrace.Moment.Format
import LockTrace.Text.Search

/-!
# The path of the error log

The path of the error log can refer to the environment of the run. What stands between `$ENV{`
and a closing brace names a variable, and its value takes the place of the reference. Then what
stands between `$TIME{` and the next closing brace is a format for the time, and its text takes
the place of both. A format that has no text ends the program.
-/

namespace LockTrace.Command

/-- What a run finds out beside its command line and its files. -/
structure Environment where
  now : Moment
  /-- The variables that are set, with their values. -/
  values : List (String × String)
deriving DecidableEq, Repr

namespace LogPath

/-! ### Variables -/

/-- What a reference to a variable starts with. -/
def variableOpening : List Char := "$ENV\x7b".toList

/-- Whether the name of a variable can start with a character. Letters and digits are those of
    ASCII: a reference with others counts as one to a variable that is not set. -/
def isNameStart (c : Char) : Bool := c.isAlphanum || c = '_'

def isNameChar (c : Char) : Bool := isNameStart c || c = '.'

/-- The name of the variable to which a text refers that follows an opening. -/
def nameOf? (cs : List Char) : Option String :=
  match cs.takeWhile isNameChar, (cs.dropWhile isNameChar).head? with
  | c :: name, some '\x7d' => if isNameStart c then some (String.ofList (c :: name)) else none
  | _, _ => none

/-- The names of the variables to which a path refers, in order. -/
def namesIn : List Char → List String
  | [] => []
  | c :: cs =>
    if variableOpening.isPrefixOf (c :: cs) then
      (nameOf? ((c :: cs).drop variableOpening.length)).toList ++ namesIn cs
    else namesIn cs

/-- How a path refers to a variable. -/
def reference (name : String) : List Char := variableOpening ++ name.toList ++ ['\x7d']

/-- Put the values of variables into the places of all references to them, one variable after
    another. A reference to a variable that is not set stays. -/
def expandVariables (values : List (String × String)) (path : List Char) : List Char :=
  (namesIn path).foldl (fun path name =>
    match values.lookup name with
    | some value => Text.replace (reference name) value.toList path
    | none => path) path

/-! ### The time -/

/-- What a placeholder for the time starts with. -/
def timeOpening : List Char := "$TIME\x7b".toList

/-- Put texts into the place of the first placeholders, of at most the given number. Each time
    the first one from the start is looked for, so a text can complete another placeholder.
    Nothing is left of the path if a format has no text. -/
def expandTimes (now : Moment) : Nat → List Char → Option (List Char)
  | 0, path => some path
  | n + 1, path =>
    match Text.cutAt? timeOpening path with
    | none => some path
    | some (before, after) =>
      match Text.cutAt? ['\x7d'] after with
      | none => some path
      | some (format, rest) => do
        let text ← now.format? format
        expandTimes now n (before ++ text ++ rest)

/-- The most placeholders for the time that are replaced in a path. -/
def maxTimes : Nat := 5

/-! ### Both -/

/-- The path that a path with references and placeholders stands for. -/
def expand? (env : Environment) (path : String) : Option String :=
  (expandTimes env.now maxTimes (expandVariables env.values path.toList)).map String.ofList

end LogPath

end LockTrace.Command
