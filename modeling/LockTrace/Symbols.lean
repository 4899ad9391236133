import LockTrace.AscMap

/-!
# Symbols

Locks outside of every allocation are variables of the kernel. A symbol table finds the
name of the variable at an address.
-/

namespace LockTrace

/-- A named address, with a size if it is known. -/
structure Symbol where
  name : String
  size : Option UInt64
deriving DecidableEq, Repr

/-- Symbols by the addresses at which they start. -/
structure SymbolTable where
  symbols : AscMap UInt64 Symbol
deriving DecidableEq, Repr

namespace SymbolTable

instance : EmptyCollection SymbolTable := ⟨⟨∅⟩⟩

instance : Inhabited SymbolTable := ⟨∅⟩

/-- Enter a symbol. It takes the place of an earlier one at the same address. -/
def insert (t : SymbolTable) (address : UInt64) (size : Option UInt64) (name : String) :
    SymbolTable :=
  ⟨t.symbols.insert address ⟨name, size⟩⟩

def size (t : SymbolTable) : Nat := t.symbols.size

def isEmpty (t : SymbolTable) : Bool := t.symbols.isEmpty

/-- Whether a symbol that starts at `start` covers `address`: it starts there, or its size
    reaches that far. -/
def Covers (start : UInt64) (s : Symbol) (address : UInt64) : Prop :=
  start = address ∨ ∃ size ∈ s.size, start ≤ address ∧ address - start < size

instance (start : UInt64) (s : Symbol) (address : UInt64) : Decidable (Covers start s address) :=
  match h : s.size with
  | none => decidable_of_iff (start = address) (by simp [Covers, h])
  | some size =>
    decidable_of_iff (start = address ∨ start ≤ address ∧ address - start < size)
      (by simp [Covers, h])

/-- The name of the symbol at an address: of the symbols that start at or below the address,
    only the nearest one counts. -/
def nameAt? (t : SymbolTable) (address : UInt64) : Option String :=
  match t.symbols.floor? address with
  | none => none
  | some (start, symbol) => if Covers start symbol address then some symbol.name else none

end SymbolTable

end LockTrace
