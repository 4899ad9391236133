import LockTrace.Folder.Path
import LockTrace.Text.Bytes

/-!
# Devices

A device is written like a file, but keeps no contents of its own. Opening it does not empty
it, the offset of a piece does not matter to it, and nothing is read from it.
-/

namespace LockTrace

/-- What takes the pieces that are written. -/
inductive Device where
  /-- Every piece is dropped. -/
  | null
  /-- No piece finds room. -/
  | full
  /-- The pieces are passed on in order. -/
  | stream (passed : Bytes)
  /-- Nothing is connected, so the device cannot even be opened. -/
  | detached
deriving DecidableEq, Repr

namespace Device

/-- What keeps a device from being opened. -/
def check : Device → Except FileError Unit
  | detached => .error .notConnected
  | _ => .ok ()

/-- Write a piece. An empty piece needs no room. -/
def write : Device → Bytes → Except FileError Device
  | null, _ => .ok null
  | full, [] => .ok full
  | full, _ :: _ => .error .noSpace
  | stream passed, piece => .ok (stream (passed ++ piece))
  | detached, _ => .error .notConnected

end Device

end LockTrace
