import LockTrace.Json.Value

/-!
# Reading JSON

A reader for one JSON value that takes up the whole file but for blanks.
-/

namespace LockTrace.Json

/-! ### Characters -/

/-- Space, tabulator and the ends of lines. -/
def isBlank (b : UInt8) : Bool := b = 32 || b = 9 || b = 10 || b = 13

def skipBlanks (bs : Bytes) : Bytes := bs.dropWhile isBlank

/-- The value of a hexadecimal digit. -/
def hexValue? (b : UInt8) : Option Nat :=
  if 48 ≤ b ∧ b ≤ 57 then some (b.toNat - 48)
  else if 97 ≤ b ∧ b ≤ 102 then some (b.toNat - 87)
  else if 65 ≤ b ∧ b ≤ 70 then some (b.toNat - 55)
  else none

/-- The byte that a letter after a backslash stands for. -/
def unescape? (b : UInt8) : Option UInt8 :=
  if b = 34 ∨ b = 92 ∨ b = 47 then some b
  else if b = 98 then some 8
  else if b = 102 then some 12
  else if b = 110 then some 10
  else if b = 114 then some 13
  else if b = 116 then some 9
  else none

/-- The unit with four hexadecimal digits. -/
def unit? (a b c d : UInt8) : Option Nat := do
  let a ← hexValue? a
  let b ← hexValue? b
  let c ← hexValue? c
  let d ← hexValue? d
  some (((a * 16 + b) * 16 + c) * 16 + d)

/-! ### Strings and numbers -/

/-- The rest of a string after its opening quote, and what follows the string. -/
def lexString : Bytes → Option (RawString × Bytes)
  | [] => none
  | b :: rest =>
    if b = 34 then some ([], rest)
    else if b < 32 then none
    else if b = 92 then
      match rest with
      | [] => none
      | e :: rest =>
        if e = 117 then
          match rest with
          | h₁ :: h₂ :: h₃ :: h₄ :: rest => do
            let u ← unit? h₁ h₂ h₃ h₄
            let (s, rest) ← lexString rest
            some (.unit u :: s, rest)
          | _ => none
        else do
          let c ← unescape? e
          let (s, rest) ← lexString rest
          some (.byte c :: s, rest)
    else do
      let (s, rest) ← lexString rest
      some (.byte b :: s, rest)

def isDigit (b : UInt8) : Bool := 48 ≤ b && b ≤ 57

/-- One digit or more, and what follows. -/
def lexDigits (bs : Bytes) : Option (Bytes × Bytes) :=
  let digits := bs.takeWhile isDigit
  if digits.isEmpty then none else some (digits, bs.dropWhile isDigit)

/-- The digits before the point: zero alone, or digits that do not start with it. -/
def lexWhole : Bytes → Option (Bytes × Bytes)
  | [] => none
  | b :: rest =>
    if b = 48 then (if rest.head?.any isDigit then none else some ([b], rest))
    else lexDigits (b :: rest)

/-- The point and the digits after it, if there is a point. -/
def lexFraction : Bytes → Option (Bytes × Bytes)
  | [] => some ([], [])
  | b :: rest =>
    if b = 46 then (lexDigits rest).map fun (digits, rest) => (b :: digits, rest)
    else some ([], b :: rest)

/-- The exponent, if there is one. -/
def lexExponent : Bytes → Option (Bytes × Bytes)
  | [] => some ([], [])
  | b :: rest =>
    if b = 101 ∨ b = 69 then
      match rest with
      | [] => none
      | s :: rest' =>
        if s = 43 ∨ s = 45 then (lexDigits rest').map fun (digits, rest) => (b :: s :: digits, rest)
        else (lexDigits rest).map fun (digits, rest) => (b :: digits, rest)
    else some ([], b :: rest)

/-- A number, and what follows it. -/
def lexNumber (bs : Bytes) : Option (Bytes × Bytes) := do
  let (sign, rest) :=
    match bs with
    | b :: rest => if b = 45 then ([b], rest) else ([], bs)
    | [] => ([], [])
  let (whole, rest) ← lexWhole rest
  let (fraction, rest) ← lexFraction rest
  let (exponent, rest) ← lexExponent rest
  some (sign ++ whole ++ fraction ++ exponent, rest)

/-- A word that is a value, and what follows it. -/
def lexWord (bs : Bytes) : Option (Json × Bytes) :=
  match (Bytes.ofString "null").isPrefixOf? bs with
  | some rest => some (.null, rest)
  | none =>
    match (Bytes.ofString "true").isPrefixOf? bs with
    | some rest => some (.bool true, rest)
    | none =>
      match (Bytes.ofString "false").isPrefixOf? bs with
      | some rest => some (.bool false, rest)
      | none => none

/-! ### Values -/

mutual

/-- The value at the start of some bytes, and what follows it. The first argument bounds the
    number of nested calls. -/
def readValue : Nat → Bytes → Option (Json × Bytes)
  | 0, _ => none
  | n + 1, bs =>
    match skipBlanks bs with
    | [] => none
    | b :: rest =>
      if b = 34 then (lexString rest).map fun (s, rest) => (.string s, rest)
      else if b = 91 then
        match skipBlanks rest with
        | [] => none
        | c :: rest' =>
          if c = 93 then some (.array [], rest')
          else (readItems n (c :: rest')).map fun (items, rest) => (.array items, rest)
      else if b = 123 then
        match skipBlanks rest with
        | [] => none
        | c :: rest' =>
          if c = 125 then some (.object [], rest')
          else (readMembers n (c :: rest')).map fun (ms, rest) => (.object ms, rest)
      else if b = 45 ∨ isDigit b then
        (lexNumber (b :: rest)).map fun (text, rest) => (.number text, rest)
      else lexWord (b :: rest)

/-- The items of an array from the first one on, up to the closing bracket. -/
def readItems : Nat → Bytes → Option (List Json × Bytes)
  | 0, _ => none
  | n + 1, bs => do
    let (item, rest) ← readValue n bs
    match skipBlanks rest with
    | [] => none
    | c :: rest =>
      if c = 93 then some ([item], rest)
      else if c = 44 then
        let (items, rest) ← readItems n rest
        some (item :: items, rest)
      else none

/-- The members of an object from the first one on, up to the closing brace. -/
def readMembers : Nat → Bytes → Option (List (RawString × Json) × Bytes)
  | 0, _ => none
  | n + 1, bs =>
    match skipBlanks bs with
    | [] => none
    | q :: rest =>
      if q = 34 then do
        let (name, rest) ← lexString rest
        match skipBlanks rest with
        | [] => none
        | c :: rest =>
          if c = 58 then
            let (value, rest) ← readValue n rest
            match skipBlanks rest with
            | [] => none
            | c :: rest =>
              if c = 125 then some ([(name, value)], rest)
              else if c = 44 then
                let (ms, rest) ← readMembers n rest
                some ((name, value) :: ms, rest)
              else none
          else none
      else none

end

/-- The value of a file. Only blanks may follow it. Every second nested call takes a byte
    away, which bounds their number. -/
def ofBytes? (bs : Bytes) : Option Json :=
  match readValue (2 * bs.length + 2) bs with
  | some (value, rest) => if (skipBlanks rest).isEmpty then some value else none
  | none => none

end LockTrace.Json
