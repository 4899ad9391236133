import LockTrace.Json.Printer
import LockTrace.Json.Reader
import LockTrace.Summary

/-!
# Summaries as JSON

The written form of a summary, and its reader. Every number of the summary has a name of its
own; the reader wants each of them exactly once, and takes the names of inconsistencies as
they come.
-/

namespace LockTrace

open Json (Figures)

/-! ### Writing -/

def EventCounts.figures (c : EventCounts) : Figures :=
  .group
    [("total", .number c.total), ("allocs", .number c.allocs), ("frees", .number c.frees),
      ("acquires", .number c.acquires), ("releases", .number c.releases),
      ("reads", .number c.reads), ("writes", .number c.writes), ("ignored", .number c.ignored)]

def Stats.figures (s : Stats) : Figures :=
  .group
    [("opened", .number s.opened), ("emitted", .number s.emitted),
      ("suppressed", .number s.suppressed), ("reopened", .number s.reopened),
      ("locks_held", .number s.heldRecords)]

def Summary.figures (s : Summary) : Figures :=
  .group
    [("events", s.events.figures), ("txns", s.txns.figures), ("sub_locks", .number s.subLocks),
      ("allocations", .number s.allocations), ("data_types", .number s.dataTypes),
      ("accesses", .number s.accesses), ("discarded_accesses", .number s.discardedAccesses),
      ("inconsistencies",
        .group (s.inconsistencies.entries.map fun (name, n) => (name, .number n)))]

/-- The JSON text of a summary. -/
def Summary.toJson (s : Summary) : String := s.figures.print 0

/-! ### Reading -/

/-- A number of a summary. -/
def figure? (j : Json) : Option Nat := j.word?.map UInt64.toNat

def EventCounts.ofJson? (j : Json) : Option EventCounts := do
  let fields ← j.fields?
    ["total", "allocs", "frees", "acquires", "releases", "reads", "writes", "ignored"]
  match ← fields.mapM figure? with
  | [total, allocs, frees, acquires, releases, reads, writes, ignored] =>
    some ⟨total, allocs, frees, acquires, releases, reads, writes, ignored⟩
  | _ => none

def Stats.ofJson? (j : Json) : Option Stats := do
  let fields ← j.fields? ["opened", "emitted", "suppressed", "reopened", "locks_held"]
  match ← fields.mapM figure? with
  | [opened, emitted, suppressed, reopened, locksHeld] =>
    some ⟨opened, emitted, suppressed, reopened, locksHeld⟩
  | _ => none

/-- Inconsistencies by name. Of two numbers with one name the later one stays. -/
def inconsistenciesOfJson? (j : Json) : Option (AscMap String Nat) := do
  let members ← j.members?
  let entries ← members.mapM fun (name, value) => (figure? value).map (name, ·)
  some (entries.foldl (fun m e => m.insert e.1 e.2) ∅)

/-- The summary that a JSON value stands for. -/
def Summary.ofJson? (j : Json) : Option Summary := do
  let fields ← j.fields?
    ["events", "txns", "sub_locks", "allocations", "data_types", "accesses",
      "discarded_accesses", "inconsistencies"]
  match fields with
  | [events, txns, subLocks, allocations, dataTypes, accesses, discarded, inconsistencies] =>
    some
      { events := ← EventCounts.ofJson? events
        txns := ← Stats.ofJson? txns
        subLocks := ← figure? subLocks
        allocations := ← figure? allocations
        dataTypes := ← figure? dataTypes
        accesses := ← figure? accesses
        discardedAccesses := ← figure? discarded
        inconsistencies := ← inconsistenciesOfJson? inconsistencies }
  | _ => none

/-- The summary in a file. -/
def Summary.ofBytes? (bs : Bytes) : Option Summary := (Json.ofBytes? bs).bind Summary.ofJson?

end LockTrace
