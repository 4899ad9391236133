import LockTrace.Gzip.Bits

/-!
# Prefix codes

A prefix code gives every symbol a sequence of bits, such that no sequence starts another.
The lengths of the sequences fix the code: shorter ones come first, those of one length are
consecutive numbers, and symbols of one length stand in their own order.
-/

namespace LockTrace.Gzip

/-- A prefix code for the symbols 0, 1, 2, … -/
structure PrefixCode where
  /-- How many symbols have a sequence of length 1, 2, 3, … -/
  counts : List Nat
  /-- The symbols in the order of their sequences. -/
  symbols : Array Nat
deriving DecidableEq, Repr

namespace PrefixCode

/-- The length of the longest sequence. -/
def maxLength : Nat := 15

/-- The code for given lengths, one for each symbol. A symbol of length 0 does not occur. -/
def ofLengths (lengths : List Nat) : PrefixCode :=
  let numbered := lengths.zipIdx
  let ofLength (n : Nat) : List Nat := (numbered.filter (fun e => e.1 = n)).map Prod.snd
  let groups := (List.range maxLength).map fun n => ofLength (n + 1)
  ⟨groups.map List.length, groups.flatten.toArray⟩

/-- How many sequences of the greatest length start with the sequence of a symbol. -/
def covered (c : PrefixCode) : Nat := c.counts.foldl (fun n count => 2 * n + count) 0

/-- Whether every long sequence of bits starts with the sequence of a symbol, and with one
    only: there are 32768 sequences of 15 bits. -/
def isComplete (c : PrefixCode) : Bool := c.covered = 32768

/-- Read a symbol, after some bits with the value `code`. The sequences of their length that
    are too long by now start at `first`; `passed` symbols have shorter sequences. -/
def readFrom (symbols : Array Nat) (r : Bits) (code first passed : Nat) :
    List Nat → Except Fault (Nat × Bits)
  | [] => .error .corruptBlock
  | count :: counts => do
    let (b, r) ← r.bit
    let code := 2 * code + b
    let first := 2 * first
    if code < first + count then
      match symbols[passed + (code - first)]? with
      | some symbol => .ok (symbol, r)
      | none => .error .corruptBlock
    else readFrom symbols r code (first + count) (passed + count) counts

/-- Read a symbol. -/
def read (c : PrefixCode) (r : Bits) : Except Fault (Nat × Bits) :=
  readFrom c.symbols r 0 0 0 c.counts

end PrefixCode

end LockTrace.Gzip
