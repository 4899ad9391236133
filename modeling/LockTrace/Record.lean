import LockTrace.Lock.Basic

/-!
# Records

What a conversion writes: one kind of row per output table, and the request to flush the
tables at the end. A missing value is `none`.
-/

namespace LockTrace

/-- A data type that occurred in an allocation. -/
structure DataTypeRow where
  id : Nat
  name : String
deriving DecidableEq, Repr

/-- An allocation; one that is still active at the end of the trace has no `stop`. -/
structure AllocationRow where
  id : Nat
  typeId : Nat
  base : UInt64
  size : UInt64
  start : UInt64
  stop : Option UInt64
deriving DecidableEq, Repr

/-- A memory access with the allocation and the transaction to which it belongs. -/
structure AccessRow where
  id : Nat
  allocation : Option Nat
  txn : Option Nat
  time : UInt64
  kind : AccessKind
  size : UInt64
  address : UInt64
  site : Site
deriving DecidableEq, Repr

/-- One side of a lock. -/
structure LockRow where
  id : Nat
  address : UInt64
  allocation : Option Nat
  label : String
  side : Side
  varName : Option String
  flags : UInt32
deriving DecidableEq, Repr

/-- A sub-lock that was held while a transaction ran. -/
structure HeldRow where
  txn : Nat
  lock : Nat
  taken : Acquisition
deriving DecidableEq, Repr

/-- A transaction. -/
structure TxnRow where
  id : Nat
  start : UInt64
  stop : UInt64
deriving DecidableEq, Repr

/-- One thing to write. -/
inductive Record where
  | dataType (row : DataTypeRow)
  | allocation (row : AllocationRow)
  | access (row : AccessRow)
  | lock (row : LockRow)
  | held (row : HeldRow)
  | txn (row : TxnRow)
  /-- All rows are written. -/
  | flush
deriving DecidableEq, Repr

end LockTrace
