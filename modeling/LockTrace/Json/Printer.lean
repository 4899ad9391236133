import LockTrace.Text.Numeral

/-!
# Writing JSON

Named numbers in groups are written as JSON objects, one member per line, each level two
blanks deeper than the one around it. In strings the quote, the backslash and the control
characters are escaped, and nothing else is.
-/

namespace LockTrace.Json

/-- Numbers and groups of named numbers. -/
inductive Figures where
  | number (n : Nat)
  | group (members : List (String × Figures))

/-- Two hexadecimal digits in lower case. -/
def hexByte (n : Nat) : List Char := [Nat.digitChar (n / 16 % 16), Nat.digitChar (n % 16)]

/-- A character inside a string. -/
def escape (c : Char) : List Char :=
  if c = '"' then ['\\', '"']
  else if c = '\\' then ['\\', '\\']
  else if c = '\x08' then ['\\', 'b']
  else if c = '\x0c' then ['\\', 'f']
  else if c = '\n' then ['\\', 'n']
  else if c = '\r' then ['\\', 'r']
  else if c = '\t' then ['\\', 't']
  else if c.toNat < 32 then ['\\', 'u', '0', '0'] ++ hexByte c.toNat
  else [c]

/-- A text as a JSON string. -/
def quote (s : String) : String :=
  "\"" ++ String.ofList (s.toList.flatMap escape) ++ "\""

/-- The blanks before a line at a given depth. -/
def indent (depth : Nat) : String := String.ofList (List.replicate (2 * depth) ' ')

mutual

/-- Figures that start in a line at a given depth. -/
def Figures.print (depth : Nat) : Figures → String
  | .number n => Numeral.decimal n
  | .group [] => "\x7b\x7d"
  | .group (m :: ms) =>
    "\x7b\n" ++ printMembers (depth + 1) (m :: ms) ++ "\n" ++ indent depth ++ "\x7d"

/-- The members of a group, with a comma between two lines. -/
def printMembers (depth : Nat) : List (String × Figures) → String
  | [] => ""
  | [(name, f)] => indent depth ++ quote name ++ ": " ++ f.print depth
  | (name, f) :: m :: ms =>
    indent depth ++ quote name ++ ": " ++ f.print depth ++ ",\n" ++ printMembers depth (m :: ms)

end

end LockTrace.Json
