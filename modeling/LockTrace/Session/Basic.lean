import LockTrace.Heap
import LockTrace.Monitor.Step
import LockTrace.Summary
import LockTrace.Symbols

/-!
# Following a trace

A session passes the events of a trace on to the monitor and to the heap. Memory accesses
wait in a buffer until the next event that is no access; then each is attributed to the
innermost transaction of its context and to the allocation around its address.

The buffer is there because a lock operation reads and writes the lock word itself. When a
lock operation comes right after a read and a write of its lock, these two are accesses of
the lock's own code, and are dropped.
-/

namespace LockTrace

/-- The choices that a conversion leaves open. -/
structure Config where
  /-- Whether transactions without accesses leave no row. -/
  skipEmpty : Bool
  /-- The character between two columns. -/
  delimiter : Char
  /-- The directory to strip from the names of source files. -/
  kernelDir : Option String
  /-- The data types to track; all of them if none is named. -/
  dataTypes : Option (List String)
deriving DecidableEq, Repr

/-- The character between two columns, if no other is chosen. -/
def defaultDelimiter : Char := ';'

def Config.default : Config := ⟨true, defaultDelimiter, none, none⟩

instance : Inhabited Config := ⟨Config.default⟩

/-- An access that waits in the buffer. -/
structure PendingAccess where
  ctx : Int64
  time : UInt64
  kind : AccessKind
  size : UInt64
  address : UInt64
  site : Site
deriving DecidableEq, Repr

/-- The state of following a trace. -/
structure Session where
  /-- The prefix to strip from the names of source files. -/
  sourcePrefix : Option (List Char)
  symbols : SymbolTable
  monitor : Monitor
  heap : Heap
  /-- The buffered accesses, the latest first. -/
  pending : List PendingAccess
  accessIds : Counter
  /-- The number of accesses that were left out so far, without a bound. -/
  discarded : Nat
  counts : EventCounts
  /-- The largest time of an event so far. -/
  lastTime : UInt64
deriving DecidableEq

namespace Session

/-- A directory as a prefix of file names: a slash follows it. -/
def prefixOfDir (dir : String) : List Char :=
  if dir.toList.getLast? = some '/' then dir.toList else dir.toList ++ ['/']

/-- The session at the start of a trace. -/
def initial (config : Config) (symbols : SymbolTable) : Session where
  sourcePrefix := config.kernelDir.map prefixOfDir
  symbols := symbols
  monitor := .initial config.skipEmpty
  heap := .initial config.dataTypes
  pending := []
  accessIds := .fromOne
  discarded := 0
  counts := .zero
  lastTime := 0

/-- Strip the source directory from the file of a site that lies in it. -/
def stripSite (s : Session) (site : Site) : Site :=
  match s.sourcePrefix.bind (·.isPrefixOf? site.file.toList) with
  | none => site
  | some rest => { site with file := String.ofList rest }

/-- Append outputs to the journal. -/
def addOutputs (s : Session) (os : List Output) : Session :=
  { s with monitor := { s.monitor with journal := s.monitor.journal.addAll os } }

/-! ### The buffer of accesses -/

/-- Put an access into the buffer. -/
def buffer (s : Session) (e : Event) (kind : AccessKind) (size : UInt64) : Session :=
  { s with pending := ⟨e.ctx, e.time, kind, size, e.address, s.stripSite e.site⟩ :: s.pending }

/-- Whether two accesses, one right after the other, are what a lock operation of the context
    `ctx` at `address` does to the word of its lock. -/
def IsOwnUpdate (address : UInt64) (ctx : Int64) (first second : PendingAccess) : Prop :=
  first.ctx = ctx ∧ second.ctx = ctx ∧ first.time = second.time ∧
    first.kind = .read ∧ second.kind = .write ∧
    first.address = address ∧ second.address = address ∧ first.size = second.size

instance (address : UInt64) (ctx : Int64) (first second : PendingAccess) :
    Decidable (IsOwnUpdate address ctx first second) :=
  inferInstanceAs (Decidable (_ ∧ _))

/-- The buffer without the lock operation's own update of its lock, and how many accesses
    were dropped. The last two accesses of the whole buffer decide. -/
def dropOwnUpdate (lock : Option (UInt64 × Int64)) (pending : List PendingAccess) :
    List PendingAccess × Nat :=
  match lock, pending with
  | some (address, ctx), second :: first :: rest =>
    if IsOwnUpdate address ctx first second then (rest, 2) else (pending, 0)
  | _, _ => (pending, 0)

/-- The row of an access, with the allocation around its address and the innermost transaction of
    its context. -/
def accessRow (s : Session) (a : PendingAccess) : AccessRow where
  id := s.accessIds.next
  allocation := (s.heap.containing? a.address).map (·.id)
  txn := (s.monitor.innermost? a.ctx).map (·.id)
  time := a.time
  kind := a.kind
  size := a.size
  address := a.address
  site := a.site

/-- Count an access for the innermost transaction of its context and write its row. -/
def writeAccess (s : Session) (a : PendingAccess) : Session :=
  { s with
    monitor := (s.monitor.countAccess a.ctx).write (.access (s.accessRow a))
    accessIds := s.accessIds.advance }

/-- Empty the buffer. `lock` is the address and the context of the lock operation that comes
    next, if it is one. -/
def flush (s : Session) (lock : Option (UInt64 × Int64)) : Session :=
  let (pending, dropped) := dropOwnUpdate lock s.pending
  pending.reverse.foldl writeAccess { s with pending := [], discarded := s.discarded + dropped }

/-! ### Locks -/

/-- The types of locks whose operations are left aside. -/
def ignoredTypes : List String := ["seqlock_t", "seqcount_t"]

/-- Where a new lock lies: in the allocation around it, or else in a variable. -/
def place (s : Session) (address : UInt64) : Placement :=
  match s.heap.containing? address with
  | some a => ⟨some a.id, none⟩
  | none => ⟨none, s.symbols.nameAt? address⟩

/-- The text for the side of a lock that was never seen. -/
def describeUnseen (e : Event) (op : LockOp) : String :=
  String.intercalate "," [e.typeName, "-", op.side.name, Numeral.address e.address]

/-- A lock operation. The release of a lock that was never seen creates no lock. -/
def lockEvent (s : Session) (e : Event) (op : LockOp) (irqSync : IrqSync) (flags : UInt32) :
    Session × Option Fatal :=
  if op.isAcquire = false ∧ s.monitor.locks.find? e.address = none then
    (s.addOutputs
      [.report (.operation .noRunningTxn (describeUnseen e op) op e.time e.ctx)], none)
  else
    match s.monitor.findOrCreate e.address e.typeName flags s.place with
    | .error cause => (s, some cause)
    | .ok (key, monitor) =>
      let t : Transition := ⟨op, e.ctx, e.time, s.stripSite e.site, e.preemptCount, irqSync, flags⟩
      let (monitor, stop) := monitor.step key t
      ({ s with monitor := monitor }, stop)

/-! ### Allocations -/

def allocEvent (s : Session) (e : Event) (size : UInt64) : Session :=
  let change := s.heap.allocate e.address size e.typeName e.time
  { s with heap := change.heap }.addOutputs change.outputs

/-- The end of an allocation. The locks in it are gone with it. -/
def freeEvent (s : Session) (e : Event) : Session :=
  let change := s.heap.free e.address e.time
  let s := { s with heap := change.heap }.addOutputs change.outputs
  match change.answer with
  | none => s
  | some a => { s with monitor := (s.monitor.freeRange a.base a.size e.time).2 }

/-! ### Events -/

/-- Count an event and its time. -/
def note (s : Session) (e : Event) : Session :=
  { s with counts := s.counts.record e.operation, lastTime := max s.lastTime e.time }

/-- One operation on a lock whose type is not left aside, with the accesses before it. -/
def flushedLockEvent (s : Session) (e : Event) (op : LockOp) (irqSync : IrqSync)
    (flags : UInt32) : Session × Option Fatal :=
  if e.typeName ∈ ignoredTypes then
    ({ s with counts := { s.counts with ignored := s.counts.ignored + 1 } }, none)
  else (s.flush (some (e.address, e.ctx))).lockEvent e op irqSync flags

/-- Follow one event. It is the last one if a cause to stop comes with it. -/
def step (s : Session) (e : Event) : Session × Option Fatal :=
  let s := s.note e
  match e.operation with
  | .access kind size => (s.buffer e kind size, none)
  | .alloc size => ((s.flush none).allocEvent e size, none)
  | .free => ((s.flush none).freeEvent e, none)
  | .acquire side irqSync flags => s.flushedLockEvent e (.acquire side) irqSync flags
  | .release side flags => s.flushedLockEvent e (.release side) .none flags

/-! ### The end of the trace -/

/-- The numbers of a session. -/
def summary (s : Session) : Summary where
  events := s.counts
  txns := s.monitor.stats
  subLocks := s.monitor.locks.subLockCount
  allocations := s.heap.total
  dataTypes := s.heap.typeCount
  accesses := s.accessIds.issued
  discardedAccesses := s.discarded
  inconsistencies := s.monitor.journal.tally.counts

/-- Write what is left: the buffered accesses, the open transactions as if they ended with
    the last event, and the active allocations. -/
def finish (s : Session) : Session :=
  let s := s.flush none
  let m := if s.monitor.isIdle then s.monitor else s.monitor.remark (.closing s.lastTime)
  let s := { s with monitor := m.closeAll s.lastTime }
  let change := s.heap.finish
  { s with heap := change.heap }.addOutputs (change.outputs ++ [Output.record .flush])

/-- Follow events until one of them is the last. -/
def run (s : Session) : List Event → Session × Option Fatal
  | [] => (s, none)
  | e :: es =>
    match s.step e with
    | (s, none) => s.run es
    | (s, some cause) => (s, some cause)

/-- Everything that was brought forth so far. -/
def journal (s : Session) : Journal := s.monitor.journal

end Session

end LockTrace
