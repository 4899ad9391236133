import LockTrace.Gzip.Huffman

/-!
# Inflating

Deflated data is a sequence of blocks. A block is stored as it is, or is a sequence of
symbols in a prefix code that is fixed or stands at the start of the block. A symbol is a
byte, the end of the block, or the length of a piece of the output that occurs again; how
far back it lies follows in a second code.
-/

namespace LockTrace.Gzip

/-- The output so far, and the bits that follow. -/
structure Inflated where
  output : ByteArray
  rest : Bits

/-- Why inflating ends before the last block does. What was put out before stays. -/
inductive Halt where
  /-- There is more output than may be put out. -/
  | full
  | fault (cause : Fault)
deriving DecidableEq, Repr

/-! ### Lengths and distances -/

/-- The least length for each symbol from 257 on, and the number of bits to add. -/
def lengthSteps : Array (Nat × Nat) :=
  #[(3, 0), (4, 0), (5, 0), (6, 0), (7, 0), (8, 0), (9, 0), (10, 0), (11, 1), (13, 1), (15, 1),
    (17, 1), (19, 2), (23, 2), (27, 2), (31, 2), (35, 3), (43, 3), (51, 3), (59, 3), (67, 4),
    (83, 4), (99, 4), (115, 4), (131, 5), (163, 5), (195, 5), (227, 5), (258, 0)]

/-- The least distance for each symbol, and the number of bits to add. -/
def distanceSteps : Array (Nat × Nat) :=
  #[(1, 0), (2, 0), (3, 0), (4, 0), (5, 1), (7, 1), (9, 2), (13, 2), (17, 3), (25, 3), (33, 4),
    (49, 4), (65, 5), (97, 5), (129, 6), (193, 6), (257, 7), (385, 7), (513, 8), (769, 8),
    (1025, 9), (1537, 9), (2049, 10), (3073, 10), (4097, 11), (6145, 11), (8193, 12),
    (12289, 12), (16385, 13), (24577, 13)]

/-- The number that a symbol and the bits after it stand for. -/
def readStep (steps : Array (Nat × Nat)) (symbol : Nat) (r : Bits) :
    Except Fault (Nat × Bits) :=
  match steps[symbol]? with
  | none => .error .corruptBlock
  | some (base, extra) => do
    let (n, r) ← r.take extra
    .ok (base + n, r)

/-! ### Codes -/

/-- The two codes of a block: one for bytes, for lengths and for the end of the block, and one
    for distances. -/
structure Codes where
  lengths : PrefixCode
  distances : PrefixCode

/-- The lengths of the fixed code. -/
def fixedLengths : List Nat :=
  List.replicate 144 8 ++ List.replicate 112 9 ++ List.replicate 24 7 ++ List.replicate 8 8

def fixedDistances : List Nat := List.replicate 32 5

def Codes.fixed : Codes := ⟨.ofLengths fixedLengths, .ofLengths fixedDistances⟩

/-- The symbols of the code for lengths, in the order in which their lengths stand. -/
def lengthOrder : List Nat := [16, 17, 18, 0, 8, 7, 9, 6, 10, 5, 11, 4, 12, 3, 13, 2, 14, 1, 15]

/-- Read the lengths of the code for lengths, three bits each. -/
def readShortLengths (r : Bits) : List Nat → Except Fault (List (Nat × Nat) × Bits)
  | [] => .ok ([], r)
  | symbol :: symbols => do
    let (length, r) ← r.take 3
    let (rest, r) ← readShortLengths r symbols
    .ok ((symbol, length) :: rest, r)

/-- Read lengths until there are `count` of them, in at most the given number of rounds. The
    lengths read so far are given in reverse. -/
def readLengths (code : PrefixCode) (count : Nat) :
    Nat → List Nat → Bits → Except Fault (List Nat × Bits)
  | 0, _, _ => .error .corruptBlock
  | n + 1, found, r =>
    if found.length = count then .ok (found.reverse, r)
    else if count < found.length then .error .corruptBlock
    else do
      let (symbol, r) ← code.read r
      if symbol < 16 then readLengths code count n (symbol :: found) r
      else if symbol = 16 then
        match found with
        | [] => .error .corruptBlock
        | last :: _ =>
          let (k, r) ← r.take 2
          readLengths code count n (List.replicate (3 + k) last ++ found) r
      else if symbol = 17 then
        let (k, r) ← r.take 3
        readLengths code count n (List.replicate (3 + k) 0 ++ found) r
      else
        let (k, r) ← r.take 7
        readLengths code count n (List.replicate (11 + k) 0 ++ found) r

/-- The most lengths for each of the two codes. -/
def maxLengths : Nat := 286

def maxDistances : Nat := 30

/-- Whether a code can be used in a block. One with at most one symbol need not be complete. -/
def PrefixCode.isUsable (c : PrefixCode) : Bool := c.isComplete || c.symbols.size ≤ 1

/-- Read the two codes at the start of a block. -/
def readCodes (r : Bits) : Except Fault (Codes × Bits) := do
  let (n, r) ← r.take 5
  let lengths := n + 257
  let (n, r) ← r.take 5
  let distances := n + 1
  let (short, r) ← r.take 4
  if maxLengths < lengths ∨ maxDistances < distances then .error .corruptBlock
  let (pairs, r) ← readShortLengths r (lengthOrder.take (short + 4))
  let code := PrefixCode.ofLengths ((List.range 19).map fun symbol =>
    ((pairs.find? (fun e => e.1 = symbol)).map Prod.snd).getD 0)
  if !code.isComplete then .error .corruptBlock
  let count := lengths + distances
  let (found, r) ← readLengths code count (count + 1) [] r
  let codes : Codes := ⟨.ofLengths (found.take lengths), .ofLengths (found.drop lengths)⟩
  if codes.lengths.isUsable && codes.distances.isUsable then .ok (codes, r)
  else .error .corruptBlock

/-! ### Symbols -/

/-- What a symbol of a block stands for. -/
inductive Symbol where
  | byte (b : UInt8)
  | blockEnd
  /-- As many bytes as `length` says, each the same as the byte that lies `distance` back. -/
  | copy (length distance : Nat)
deriving DecidableEq, Repr

/-- Read a symbol with all that belongs to it. -/
def Codes.read (c : Codes) (r : Bits) : Except Fault (Symbol × Bits) := do
  let (symbol, r) ← c.lengths.read r
  if symbol < 256 then .ok (.byte (UInt8.ofNat symbol), r)
  else if symbol = 256 then .ok (.blockEnd, r)
  else
    let (length, r) ← readStep lengthSteps (symbol - 257) r
    let (symbol, r) ← c.distances.read r
    let (distance, r) ← readStep distanceSteps symbol r
    .ok (.copy length distance, r)

/-- The byte that lies `distance` back. Before the start there are zeros. -/
def byteBack (output : ByteArray) (distance : Nat) : UInt8 :=
  if distance ≤ output.size then (output[output.size - distance]?).getD 0 else 0

/-- Append `length` bytes, each a copy of the byte that lies `distance` back. -/
def copyBack (distance : Nat) : Nat → ByteArray → ByteArray
  | 0, output => output
  | length + 1, output => copyBack distance length (output.push (byteBack output distance))

/-- Put out the symbols of a block up to its end, at most as many as the second number says,
    and at most `limit` bytes in all. The symbol that does not fit is read. -/
def putSymbols (codes : Codes) (limit : Nat) : Nat → Inflated → Inflated × Option Halt
  | 0, s => (s, some (.fault .endOfData))
  | n + 1, ⟨output, r⟩ =>
    match codes.read r with
    | .error cause => (⟨output, r⟩, some (.fault cause))
    | .ok (.blockEnd, r) => (⟨output, r⟩, none)
    | .ok (.byte b, r) =>
      if output.size < limit then putSymbols codes limit n ⟨output.push b, r⟩
      else (⟨output, r⟩, some .full)
    | .ok (.copy length distance, r) =>
      let room := limit - output.size
      if length ≤ room then putSymbols codes limit n ⟨copyBack distance length output, r⟩
      else (⟨copyBack distance room output, r⟩, some .full)

/-! ### Blocks -/

/-- What is in a block. -/
inductive BlockData where
  /-- Bytes as they are. -/
  | stored (length : Nat)
  | coded (codes : Codes)

/-- Read how many bytes are stored in a block. The number stands there twice, the second time
    with every bit inverted. -/
def readStoredLength (r : Bits) : Except Fault (Nat × Bits) := do
  let (length, r) ← r.align.take 16
  let (inverted, r) ← r.take 16
  if length + inverted = 0xFFFF then .ok (length, r) else .error .corruptBlock

/-- Read the start of a block: whether the block is the last one, and what is in it. -/
def readBlockStart (r : Bits) : Except Fault (Bool × BlockData × Bits) := do
  let (last, r) ← r.take 1
  let (kind, r) ← r.take 2
  match kind with
  | 0 =>
    let (length, r) ← readStoredLength r
    .ok (last = 1, .stored length, r)
  | 1 => .ok (last = 1, .coded .fixed, r)
  | 2 =>
    let (codes, r) ← readCodes r
    .ok (last = 1, .coded codes, r)
  | _ => .error .corruptBlock

/-- Put out stored bytes, at most `limit` bytes in all. -/
def putStored (limit : Nat) : Nat → Inflated → Inflated × Option Halt
  | 0, s => (s, none)
  | n + 1, ⟨output, r⟩ =>
    if output.size < limit then
      match r.take 8 with
      | .error cause => (⟨output, r⟩, some (.fault cause))
      | .ok (byte, r) => putStored limit n ⟨output.push (UInt8.ofNat byte), r⟩
    else (⟨output, r⟩, some .full)

/-- Put out what is in a block. A symbol takes bits away, which bounds their number. -/
def putBlock (limit : Nat) (s : Inflated) : BlockData → Inflated × Option Halt
  | .stored length => putStored limit length s
  | .coded codes => putSymbols codes limit (s.rest.remaining + 1) s

/-- Put out blocks up to the last one, at most as many as the second number says. -/
def putBlocks (limit : Nat) : Nat → Inflated → Inflated × Option Halt
  | 0, s => (s, some (.fault .endOfData))
  | n + 1, ⟨output, r⟩ =>
    match readBlockStart r with
    | .error cause => (⟨output, r⟩, some (.fault cause))
    | .ok (last, block, r) =>
      match putBlock limit ⟨output, r⟩ block with
      | (s, some halt) => (s, some halt)
      | (s, none) => if last then (s, none) else putBlocks limit n s

/-- Inflate the data that starts at `r`, to at most `limit` bytes. A block takes bits away,
    which bounds their number. -/
def inflate (limit : Nat) (r : Bits) : Inflated × Option Halt :=
  putBlocks limit (r.remaining + 1) ⟨ByteArray.empty, r⟩

end LockTrace.Gzip
