import LockTrace.Lock.Side
import LockTrace.Text.Numeral

/-!
# What stops a conversion

A conversion ends early for one of four causes. Each has a message and an exit code of its
own. A cause that comes from somewhere else is a chain of explanations, the outermost first.
-/

namespace LockTrace

/-- A chain of explanations as one text, the outermost first. -/
def explain (chain : List String) : String := String.intercalate ": " chain

/-- Why a conversion cannot go on. -/
inductive Fatal where
  /-- A lock is acquired whose type is not known. -/
  | unknownLockType (address : UInt64) (label : String)
  /-- Both sides of a lock are held when one of them is acquired. -/
  | contradictoryState (lock : String) (op : LockOp) (time : UInt64) (readers writers : Nat)
  /-- The trace cannot be read. -/
  | input (causes : List String)
  /-- The records cannot be written. -/
  | output (cause : String)
deriving DecidableEq, Repr

namespace Fatal

def name : Fatal → String
  | unknownLockType .. => "UnknownLockType"
  | contradictoryState .. => "ContradictoryState"
  | input .. => "Input"
  | output .. => "Output"

def message : Fatal → String
  | unknownLockType address label =>
    "Unknown lock type '" ++ label ++ "' for lock at " ++ Numeral.address address
  | contradictoryState lock op time readers writers =>
    "Invalid state on lock " ++ lock ++ " (op=" ++ op.name ++ ", ts=" ++
      Numeral.decimal time.toNat ++ "): held by " ++ Numeral.decimal readers ++ " readers and " ++
      Numeral.decimal writers ++ " writers"
  | input causes => "Cannot decode trace: " ++ explain causes
  | output cause => "Cannot write output tables: " ++ cause

def exitCode : Fatal → Nat
  | input .. => 2
  | unknownLockType .. => 3
  | contradictoryState .. => 4
  | output .. => 5

end Fatal

/-- What an exit code says about a run. -/
def exitDescription (code : Int) : String :=
  if code = 0 then "Success"
  else if code = 1 then "Failure"
  else if code = 2 then "Input Error: Trace could not be decoded"
  else if code = 3 then "Model Error: Unknown lock type"
  else if code = 4 then "Model Error: Lock held by readers and writers at the same time"
  else if code = 5 then "Output Error: Could not write output tables"
  else "Unknown exit code!"

end LockTrace
