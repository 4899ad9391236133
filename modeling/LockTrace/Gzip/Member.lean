import LockTrace.Gzip.Inflate

/-!
# Compressed files

A gzip file is a sequence of members. A member has a header, deflated data, and a checksum
and the length of the data. The contents of the members follow one another.
-/

namespace LockTrace.Gzip

/-- The two bytes with which every compressed file starts. -/
def magic : Bytes := [0x1F, 0x8B]

/-- Whether a file is compressed. -/
def isCompressed (bs : Bytes) : Bool := magic.isPrefixOf bs

/-! ### The checksum -/

/-- One bit of the division by the checksum's polynomial. -/
def crcStep (c : UInt32) : UInt32 :=
  if c &&& 1 = 1 then (c >>> 1) ^^^ 0xEDB88320 else c >>> 1

def crcByte (c : UInt32) (b : UInt8) : UInt32 :=
  (List.range 8).foldl (fun c _ => crcStep c) (c ^^^ b.toUInt32)

/-- The checksum of the contents of a member. -/
def checksum (bs : ByteArray) : UInt32 := (bs.foldl crcByte 0xFFFFFFFF) ^^^ 0xFFFFFFFF

/-! ### Headers -/

/-- Pass over a text up to and including the zero that ends it. -/
def skipText (bs : Bytes) : Except Fault Bytes :=
  match bs.dropWhile (· != 0) with
  | [] => .error .endOfData
  | _ :: rest => .ok rest

/-- Pass over bytes. -/
def skip (n : Nat) (bs : Bytes) : Except Fault Bytes :=
  if n ≤ bs.length then .ok (bs.drop n) else .error .endOfData

/-- Pass over a field whose length stands before it. -/
def skipField : Bytes → Except Fault Bytes
  | low :: high :: rest => skip (low.toNat + 256 * high.toNat) rest
  | _ => .error .endOfData

/-- The flags of a header that are in no use. -/
def reservedFlags : UInt8 := 0xE0

/-- Check the checksum of a header, which stands behind it in two bytes. -/
def skipHeaderChecksum (header : Bytes) : Bytes → Except Fault Bytes
  | low :: high :: rest =>
    if low.toNat + 256 * high.toNat = (checksum ⟨header.toArray⟩).toNat % 65536 then .ok rest
    else .error .wrongChecksum
  | _ => .error .endOfData

/-- Pass over the header of a member. Its flags say which of the optional parts are there: an
    extra field, a name, a comment and a checksum of the header. -/
def skipHeader (bs : Bytes) : Except Fault Bytes :=
  match bs with
  | m₁ :: m₂ :: method :: flags :: _ :: _ :: _ :: _ :: _ :: _ :: rest => do
    if [m₁, m₂] ≠ magic ∨ method ≠ 8 ∨ flags &&& reservedFlags ≠ 0 then .error .invalidHeader
    let rest ← if flags &&& 4 ≠ 0 then skipField rest else .ok rest
    let rest ← if flags &&& 8 ≠ 0 then skipText rest else .ok rest
    let rest ← if flags &&& 16 ≠ 0 then skipText rest else .ok rest
    if flags &&& 2 ≠ 0 then skipHeaderChecksum (bs.take (bs.length - rest.length)) rest
    else .ok rest
  | _ => .error .endOfData

/-! ### Members -/

/-- What stands at the end of a member. -/
structure MemberEnd where
  /-- The checksum of the contents. -/
  crc : Nat
  /-- The length of the contents, as far as 32 bits hold it. -/
  size : Nat
deriving DecidableEq, Repr

/-- Read the end of a member. -/
def readEnd (r : Bits) : Except Fault (MemberEnd × Bits) := do
  let (crc, r) ← r.take 32
  let (size, r) ← r.take 32
  .ok (⟨crc, size⟩, r)

/-- Whether the end of a member goes with its contents. -/
def MemberEnd.goesWith (e : MemberEnd) (contents : ByteArray) : Bool :=
  e.crc = (checksum contents).toNat && e.size = contents.size % UInt32.size

/-- The contents of the first member, and what follows the member. A bit of its data stands
    for at most 258 bytes. -/
def readMember (bs : Bytes) : Except Fault (Bytes × Bytes) := do
  let rest ← skipHeader bs
  let bits : Bits := ⟨⟨rest.toArray⟩, 0⟩
  match inflate (258 * bits.remaining) bits with
  | (_, some (.fault .endOfData)) => .error .incompleteMember
  | (_, some (.fault cause)) => .error cause
  | (_, some .full) => .error .corruptBlock
  | (s, none) => do
    let (e, r) ← readEnd s.rest.align
    if e.goesWith s.output then .ok (s.output.data.toList, rest.drop (r.position / 8))
    else .error .wrongChecksum

/-- The contents of at most the given number of members. -/
def readMembers : Nat → Bytes → Except Fault (List Bytes)
  | 0, _ => .ok []
  | n + 1, bs => do
    let (contents, rest) ← readMember bs
    if rest.isEmpty then .ok [contents]
    else do
      let more ← readMembers n rest
      .ok (contents :: more)

/-- The contents of a compressed file. A member is not empty, which bounds their number. -/
def decompress (bs : Bytes) : Except Fault Bytes := (readMembers bs.length bs).map List.flatten

end LockTrace.Gzip
