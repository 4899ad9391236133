import LockTrace.Block
import LockTrace.Gzip.Member

/-!
# Unpacking piece by piece

The contents of a compressed file, handed on in pieces while the file is read in blocks. A
block is read when the one before is used up and more contents are asked for, so the file can
grow between two pieces. At the end of a member the file is asked whether anything follows,
once and for all: if nothing does, nothing ever will.

Output is made window by window. The bits of a window are read as soon as its first byte is
asked for, and a fault in them keeps the whole window back.
-/

namespace LockTrace.Gzip

/-- A member whose data is being read. -/
structure OpenMember where
  /-- The deflated data so far. -/
  data : ByteArray
  /-- The contents so far. -/
  output : ByteArray
  /-- Whether the contents end there. -/
  ended : Bool
  /-- How many bytes of the contents have been handed on. -/
  given : Nat
  /-- Whether the end of the file was seen in the middle of the member. -/
  sawEnd : Bool

/-- Where unpacking stands. -/
inductive Phase where
  | member (m : OpenMember)
  /-- The last member is over. -/
  | over
  | failed (cause : Fault)

/-- A compressed file that is being read. -/
structure Unpacker where
  reader : BlockReader
  phase : Phase

namespace Unpacker

/-! ### Sizes -/

/-- The number of bytes in a block of a compressed file. The first block is smaller, as it is
    read before anyone knows that the file is compressed. -/
def packedBlockSize : Nat := 32768

/-- The number of bytes in a window. -/
def windowSize : Nat := 32768

/-! ### Headers and ends -/

/-- Pass over a header. All of it is read at once. -/
def openMember (r : BlockReader) (contents : Bytes) : Unpacker :=
  let before := r.remaining contents
  match skipHeader before with
  | .error cause => ⟨r, .failed cause⟩
  | .ok after =>
    ⟨r.skip packedBlockSize contents (before.length - after.length),
      .member ⟨ByteArray.empty, ByteArray.empty, false, 0, false⟩⟩

/-- Start to read a file. -/
def start (contents : Bytes) : Unpacker :=
  openMember (BlockReader.start.fill blockSize contents) contents

/-- Read the end of a member, and the header of the next one if there is one. -/
def closeMember (r : BlockReader) (contents : Bytes) (output : ByteArray) : Unpacker :=
  match readEnd ⟨⟨(r.remaining contents).toArray⟩, 0⟩ with
  | .error cause => ⟨r, .failed cause⟩
  | .ok (e, _) =>
    let r := r.skip packedBlockSize contents 8
    if !e.goesWith output then ⟨r, .failed .wrongChecksum⟩
    else if (r.remaining contents).isEmpty then ⟨r, .over⟩
    else openMember r contents

/-! ### Contents -/

/-- Make the next window of the contents, as far as the bytes that wait reach, and say which
    of them are left. -/
def makeWindow (m : OpenMember) (waiting : Bytes) : Except Fault (OpenMember × Bytes) :=
  let limit := (m.output.size / windowSize + 1) * windowSize
  let data := waiting.foldl ByteArray.push m.data
  match inflate limit ⟨data, 0⟩ with
  | (s, some (.fault .endOfData)) => .ok ({ m with data := data, output := s.output }, [])
  | (_, some (.fault cause)) => .error cause
  | (s, halt) =>
    let used := (s.rest.position + 7) / 8
    .ok
      ({ m with data := data.extract 0 used, output := s.output, ended := halt = none },
        waiting.drop (used - m.data.size))

/-- Make contents unless some wait to be handed on. A window that ends within the next piece
    is followed by another one. -/
def make (m : OpenMember) (waiting : Bytes) : Except Fault (OpenMember × Bytes) :=
  if m.given < m.output.size then .ok (m, waiting)
  else do
    let (m, waiting) ← makeWindow m waiting
    if m.ended ∨ waiting = [] ∨ m.given + blockSize ≤ m.output.size then .ok (m, waiting)
    else makeWindow m waiting

/-- The next piece of the contents, empty at their end. It is made from at most as many blocks
    and members as the number says. -/
def next (contents : Bytes) : Nat → Unpacker → Except Fault (Bytes × Unpacker)
  | 0, u => .ok ([], u)
  | n + 1, u =>
    match u.phase with
    | .failed cause => .error cause
    | .over => .ok ([], u)
    | .member m => do
      let r := u.reader.fill packedBlockSize contents
      let atEnd := r.waiting.isEmpty
      if m.sawEnd && !atEnd then .error .corruptBlock
      let (m, waiting) ← make { m with sawEnd := m.sawEnd || atEnd } r.waiting
      let r := { r with waiting := waiting }
      let piece := (m.output.extract m.given (m.given + blockSize)).data.toList
      if piece ≠ [] then
        .ok (piece, ⟨r, .member { m with given := m.given + piece.length }⟩)
      else if m.ended then next contents n (closeMember r contents m.output)
      else if atEnd then .error .incompleteMember
      else next contents n ⟨r, .member m⟩

/-- The next piece of the contents. Every block and every member takes bytes away, and at the
    end of the file a few steps are left to be taken. -/
def read (u : Unpacker) (contents : Bytes) : Except Fault (Bytes × Unpacker) :=
  next contents ((u.reader.remaining contents).length + 3) u

end Unpacker

end LockTrace.Gzip
