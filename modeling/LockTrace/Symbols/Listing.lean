import LockTrace.Symbols
import LockTrace.Text.Blank
import LockTrace.Text.Bytes
import LockTrace.Text.Numeral

/-!
# Symbol listings

A listing has one symbol per line: an address, a size if it is known, a letter for the kind
of the symbol, and its name, with blanks between them. A line with two fields is an
undefined symbol; it has no address and is left out, and so are lines without fields.
-/

namespace LockTrace.SymbolTable

/-- What is wrong with a line of a listing. -/
inductive ListingFault where
  | notText
  | malformed (text : List Char)
  | invalidAddress (cause : Numeral.Fault)
  | invalidSize (cause : Numeral.Fault)
deriving DecidableEq, Repr

/-- A fault and the number of its line. -/
structure ListingError where
  line : Nat
  fault : ListingFault
deriving DecidableEq, Repr

/-- The causes of an error, the outermost first. -/
def ListingError.causes (e : ListingError) : List String :=
  let line := Numeral.decimal e.line
  match e.fault with
  | .notText => [Bytes.notText]
  | .malformed text => ["Malformed symbol in line " ++ line ++ ": '" ++ String.ofList text ++ "'"]
  | .invalidAddress cause => ["Invalid symbol address in line " ++ line, cause.message]
  | .invalidSize cause => ["Invalid symbol size in line " ++ line, cause.message]

/-- A symbol and the address at which it starts. -/
structure Entry where
  address : UInt64
  symbol : Symbol
deriving DecidableEq, Repr

/-- Read the fields of a symbol. -/
def readEntry (address : List Char) (size : Option (List Char)) (name : List Char) :
    Except ListingFault Entry := do
  let address ← (Numeral.readWord64 16 address).mapError .invalidAddress
  let size ←
    match size with
    | none => pure none
    | some size => ((Numeral.readWord64 16 size).mapError .invalidSize).map some
  .ok ⟨address, String.ofList name, size⟩

/-- The symbol of a line, if it holds one. -/
def readListingLine (bytes : Bytes) : Except ListingFault (Option Entry) :=
  match bytes.chars? with
  | none => .error .notText
  | some text =>
    match Text.words text with
    | [] => .ok none
    | [_, _] => .ok none
    | [address, _, name] => (readEntry address none name).map some
    | [address, size, _, name] => (readEntry address (some size) name).map some
    | _ => .error (.malformed text)

/-- Enter the symbols of numbered lines. The first line that is wrong ends the reading. -/
def readListingLines (t : SymbolTable) : List (Bytes × Nat) → Except ListingError SymbolTable
  | [] => .ok t
  | (bytes, number) :: rest =>
    match readListingLine bytes with
    | .error fault => .error ⟨number, fault⟩
    | .ok none => readListingLines t rest
    | .ok (some e) => readListingLines (t.insert e.address e.symbol.size e.symbol.name) rest

/-- The symbol table of a listing. -/
def ofListing (bytes : Bytes) : Except ListingError SymbolTable :=
  readListingLines ∅ (bytes.lines.zipIdx 1)

end LockTrace.SymbolTable
