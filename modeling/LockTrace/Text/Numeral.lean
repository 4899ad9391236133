/-!
# Numerals

How numbers are written and read in traces, tables and messages: decimal and hexadecimal,
with ASCII digits only. Reading names what is wrong with a text, and the first fault from
the left wins: at each digit a character that is no digit is noticed before the value
becomes too large.
-/

namespace LockTrace.Numeral

/-! ### Writing -/

/-- The decimal digits of a number, without leading zeros. -/
def decimal (n : Nat) : String := String.ofList (Nat.toDigits 10 n)

/-- The hexadecimal digits of a number in lower case, without leading zeros. -/
def hexadecimal (n : Nat) : String := String.ofList (Nat.toDigits 16 n)

/-- The decimal digits of an integer, after a minus sign if it is negative. -/
def signed (i : Int) : String :=
  if i < 0 then "-" ++ decimal i.natAbs else decimal i.natAbs

/-- An address as messages show it. -/
def address (a : UInt64) : String := "0x" ++ hexadecimal a.toNat

/-! ### Reading -/

/-- What is wrong with a numeral. -/
inductive Fault where
  | empty
  | invalidDigit
  | tooLarge
  | tooSmall
deriving DecidableEq, Repr

def Fault.message : Fault → String
  | .empty => "cannot parse integer from empty string"
  | .invalidDigit => "invalid digit found in string"
  | .tooLarge => "number too large to fit in target type"
  | .tooSmall => "number too small to fit in target type"

/-- The value of a digit in base `base`, at most 16. Letters count in both cases. -/
def digit? (base : Nat) (c : Char) : Option Nat :=
  let value :=
    if '0' ≤ c ∧ c ≤ '9' then some (c.toNat - '0'.toNat)
    else if 'a' ≤ c ∧ c ≤ 'f' then some (c.toNat - 'a'.toNat + 10)
    else if 'A' ≤ c ∧ c ≤ 'F' then some (c.toNat - 'A'.toNat + 10)
    else none
  value.filter (· < base)

/-- Read the digits of a magnitude of at most `limit`, starting from the value `acc` of the
    digits before. A magnitude above the limit is the fault `excess`. -/
def magnitude (base limit : Nat) (excess : Fault) (acc : Nat) : List Char → Except Fault Nat
  | [] => .ok acc
  | c :: cs =>
    match digit? base c with
    | none => .error .invalidDigit
    | some d =>
      if limit < acc * base + d then .error excess
      else magnitude base limit excess (acc * base + d) cs

/-- Read a number below `bound`. One plus sign may stand before the digits. -/
def readNat (base bound : Nat) : List Char → Except Fault Nat
  | [] => .error .empty
  | ['+'] => .error .invalidDigit
  | '+' :: cs => magnitude base (bound - 1) .tooLarge 0 cs
  | cs => magnitude base (bound - 1) .tooLarge 0 cs

/-- Read an integer from `-bound` up to, but not including, `bound`. One sign may stand
    before the digits. -/
def readInt (base bound : Nat) : List Char → Except Fault Int
  | ['-'] => .error .invalidDigit
  | '-' :: cs => (magnitude base bound .tooSmall 0 cs).map (fun n => -(n : Int))
  | cs => (readNat base bound cs).map (fun n => (n : Int))

/-- Read a 64-bit word. -/
def readWord64 (base : Nat) (cs : List Char) : Except Fault UInt64 :=
  (readNat base UInt64.size cs).map UInt64.ofNat

/-- Read a 32-bit word in decimal. -/
def readWord32 (cs : List Char) : Except Fault UInt32 :=
  (readNat 10 UInt32.size cs).map UInt32.ofNat

/-- Read a signed 64-bit number in decimal. -/
def readInt64 (cs : List Char) : Except Fault Int64 :=
  (readInt 10 (UInt64.size / 2) cs).map Int64.ofInt

end LockTrace.Numeral
