import LockTrace.Text.Bytes

/-!
# Reading bits

Compressed data is a stream of bits. Within a byte the lowest bit comes first, and a number
of several bits starts with its lowest one.
-/

namespace LockTrace.Gzip

/-- Why compressed data cannot be read. -/
inductive Fault where
  /-- There is no more data, within a header or within what stands at the end of a member. -/
  | endOfData
  /-- There is no more data, within the deflated data of a member. -/
  | incompleteMember
  | invalidHeader
  | corruptBlock
  | wrongChecksum
deriving DecidableEq, Repr

def Fault.message : Fault → String
  | .endOfData => "unexpected end of file"
  | .incompleteMember => "incomplete deflate stream"
  | .invalidHeader => "invalid gzip header"
  | .corruptBlock => "corrupt deflate stream"
  | .wrongChecksum => "corrupt gzip stream does not have a matching checksum"

/-- Bytes, and the number of bits that have been read. -/
structure Bits where
  data : ByteArray
  position : Nat

namespace Bits

/-- The number of bits that are left. -/
def remaining (r : Bits) : Nat := 8 * r.data.size - r.position

/-- The next bit. -/
def bit (r : Bits) : Except Fault (Nat × Bits) :=
  if h : r.position / 8 < r.data.size then
    let byte := r.data[r.position / 8]
    .ok ((byte.toNat.testBit (r.position % 8)).toNat, { r with position := r.position + 1 })
  else .error .endOfData

/-- A number of `n` bits. -/
def take (r : Bits) : Nat → Except Fault (Nat × Bits)
  | 0 => .ok (0, r)
  | n + 1 => do
    let (low, r) ← r.bit
    let (high, r) ← r.take n
    .ok (2 * high + low, r)

/-- Pass over the bits that are left in a byte that was begun. -/
def align (r : Bits) : Bits := { r with position := (r.position + 7) / 8 * 8 }

end Bits

end LockTrace.Gzip
