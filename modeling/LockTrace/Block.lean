import LockTrace.Text.Bytes

/-!
# Blocks

Files are read and written in blocks. What is written waits until it fills a block, so what
is on disk ends behind what was written; and what is read was on disk when its block was
asked for. Both show when a conversion reads what it writes.
-/

namespace LockTrace

/-- The number of bytes in a block. -/
def blockSize : Nat := 8192

/-! ### Writing -/

/-- A file that is written in blocks: how many bytes are on disk, and how many wait until a
    block is full. -/
structure BlockWriter where
  written : Nat
  waiting : Nat
deriving DecidableEq, Repr

namespace BlockWriter

/-- The start of a file. -/
def start : BlockWriter := ⟨0, 0⟩

/-- The size of the file when nothing has to wait any more. -/
def size (w : BlockWriter) : Nat := w.written + w.waiting

/-- Write a piece of `n` bytes. If it does not fit behind what waits, this is written first; a
    piece that fills a block does not wait. -/
def put (w : BlockWriter) (n : Nat) : BlockWriter :=
  if n < blockSize then
    if w.waiting + n ≤ blockSize then ⟨w.written, w.waiting + n⟩ else ⟨w.size, n⟩
  else ⟨w.size + n, 0⟩

/-- Write a line of `n` bytes. The end of a line is a piece of its own. -/
def putLine (w : BlockWriter) (n : Nat) : BlockWriter := (w.put n).put 1

end BlockWriter

/-! ### Reading -/

/-- A file that is read in blocks: how many bytes have been read, and those of them that have
    not been taken. The file can change while it is read, so every operation is told its
    present contents. -/
structure BlockReader where
  offset : Nat
  waiting : Bytes
deriving DecidableEq, Repr

namespace BlockReader

/-- The start of a file. -/
def start : BlockReader := ⟨0, []⟩

/-- Read a block of at most the given size, if nothing waits. At the end of the file nothing
    waits afterwards either. -/
def fill (r : BlockReader) (size : Nat) (contents : Bytes) : BlockReader :=
  if r.waiting.isEmpty then
    let block := (contents.drop r.offset).take size
    ⟨r.offset + block.length, block⟩
  else r

/-- All that is still to come, if the file stays as it is. -/
def remaining (r : BlockReader) (contents : Bytes) : Bytes :=
  r.waiting ++ contents.drop r.offset

/-- Take bytes that wait. -/
def drop (r : BlockReader) (n : Nat) : BlockReader := { r with waiting := r.waiting.drop n }

/-- Take bytes, and read the blocks in which they lie. -/
def skip (r : BlockReader) (size : Nat) (contents : Bytes) (n : Nat) : BlockReader :=
  let missing := n - r.waiting.length
  if missing = 0 then r.drop n
  else
    let blocks := (contents.drop r.offset).take ((missing + size - 1) / size * size)
    ⟨r.offset + blocks.length, blocks.drop missing⟩

/-- Nothing is lost when a block is read. -/
theorem remaining_fill (r : BlockReader) (size : Nat) (contents : Bytes) :
    (r.fill size contents).remaining contents = r.remaining contents := by
  unfold fill remaining
  split
  · rename_i h
    rw [List.isEmpty_iff.1 h, List.nil_append, ← List.drop_drop, List.length_take]
    rcases Nat.le_total size (contents.drop r.offset).length with hs | hs
    · rw [Nat.min_eq_left hs, List.take_append_drop]
    · rw [Nat.min_eq_right hs, List.take_of_length_le hs, List.drop_length, List.append_nil]
  · rfl

end BlockReader

end LockTrace
