import LockTrace.Text.Bytes

/-!
# JSON values

A JSON value as it stands in a file. Strings and numbers are kept as they are written:
what they mean is asked only where a value is used, so that a part that nobody looks at may
hold a broken string or a number of any size.
-/

namespace LockTrace

namespace Json

/-! ### Strings -/

/-- A piece of a string: a byte that stands for itself or was escaped by a letter, or a
    16-bit unit that was escaped by its number. -/
inductive Piece where
  | byte (b : UInt8)
  | unit (u : Nat)
deriving DecidableEq, Repr

/-- The pieces of a string between its quotes. -/
abbrev RawString := List Piece

/-- The first half of a pair of units that stands for one character. -/
def IsHighHalf (u : Nat) : Prop := 0xD800 ≤ u ∧ u ≤ 0xDBFF

/-- The second half of such a pair. -/
def IsLowHalf (u : Nat) : Prop := 0xDC00 ≤ u ∧ u ≤ 0xDFFF

instance (u : Nat) : Decidable (IsHighHalf u) := inferInstanceAs (Decidable (_ ∧ _))

instance (u : Nat) : Decidable (IsLowHalf u) := inferInstanceAs (Decidable (_ ∧ _))

/-- The number of the character for which a pair of halves stands. -/
def joinHalves (high low : Nat) : Nat := 0x10000 + (high - 0xD800) * 0x400 + (low - 0xDC00)

/-- The bytes of a string. Halves of pairs must come in pairs. -/
def RawString.bytes? : RawString → Option Bytes
  | [] => some []
  | .byte b :: ps => (bytes? ps).map (b :: ·)
  | .unit u :: .unit v :: ps =>
    if IsHighHalf u then
      if IsLowHalf v then
        (bytes? ps).map (String.utf8EncodeChar (Char.ofNat (joinHalves u v)) ++ ·)
      else none
    else if IsLowHalf u then none
    else (bytes? (.unit v :: ps)).map (String.utf8EncodeChar (Char.ofNat u) ++ ·)
  | .unit u :: ps =>
    if IsHighHalf u ∨ IsLowHalf u then none
    else (bytes? ps).map (String.utf8EncodeChar (Char.ofNat u) ++ ·)

/-- The text of a string, if it is one. -/
def RawString.text? (s : RawString) : Option String :=
  (RawString.bytes? s).bind fun bs => bs.chars?.map String.ofList

end Json

/-! ### Values -/

/-- A JSON value. -/
inductive Json where
  | null
  | bool (b : Bool)
  | number (text : Bytes)
  | string (s : Json.RawString)
  | array (items : List Json)
  | object (members : List (Json.RawString × Json))
deriving Repr

namespace Json

/-- The value of an ASCII digit. -/
def digitValue? (b : UInt8) : Option Nat :=
  if 48 ≤ b ∧ b ≤ 57 then some (b.toNat - 48) else none

/-- A number that is a 64-bit word, written with digits only. -/
def word? : Json → Option UInt64
  | number text => do
    let digits ← text.mapM digitValue?
    let n := digits.foldl (fun n d => 10 * n + d) 0
    if n < UInt64.size then some (UInt64.ofNat n) else none
  | _ => none

/-- The members of an object, with their names as texts. -/
def members? : Json → Option (List (String × Json))
  | object ms => ms.mapM fun (name, value) => name.text?.map (·, value)
  | _ => none

/-- The values of a record with the given fields: the items of an array of that length, or
    the members of an object, each of them present once. An object may have other members,
    which do not count. -/
def fields? (names : List String) : Json → Option (List Json)
  | array items => if items.length = names.length then some items else none
  | object ms => do
    let ms ← (object ms).members?
    names.mapM fun name =>
      match ms.filter (fun m => m.1 = name) with
      | [(_, value)] => some value
      | _ => none
  | _ => none

end Json

end LockTrace
