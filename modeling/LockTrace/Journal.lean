import LockTrace.Inconsistency
import LockTrace.Record

/-!
# The journal

Everything that following a trace brings forth, in order: records to write, inconsistencies
to report, and remarks on the course of the work. Whoever follows the trace only ever
appends to the journal, so what a sink receives is a matter of reading it from the start
(`Sink` in `LockTrace.Sink`).
-/

namespace LockTrace

/-- A remark on the course of the work. It changes nothing and is no inconsistency. -/
inductive Remark where
  /-- The trace is over, and the transactions that are left are closed at `time`. -/
  | closing (time : UInt64)
  /-- The innermost of `count` transactions that are left in a context is closed. -/
  | stillActive (count : Nat) (ctx : Int64)
  /-- A transaction without accesses is closed and leaves no row. -/
  | suppressed (txn : Nat)
  /-- A reader's transaction gives way to a writer and leaves no row. -/
  | purged (txn : Nat) (ctx : Int64) (time : UInt64)
deriving DecidableEq, Repr

/-- One entry of the journal. -/
inductive Output where
  | record (r : Record)
  | report (i : Inconsistency)
  | remark (r : Remark)
deriving DecidableEq, Repr

namespace Output

def record? : Output → Option Record
  | record r => some r
  | _ => none

def report? : Output → Option Inconsistency
  | report i => some i
  | _ => none

end Output

/-- The outputs so far, the earliest first, and the count of the reports among them. -/
structure Journal where
  outputs : Array Output
  tally : Tally
deriving DecidableEq, Repr

namespace Journal

instance : EmptyCollection Journal := ⟨⟨#[], ∅⟩⟩

instance : Inhabited Journal := ⟨∅⟩

/-- Append one output. A report is counted as well. -/
def add (j : Journal) (o : Output) : Journal where
  outputs := j.outputs.push o
  tally := match o with
    | .report i => j.tally.record i
    | _ => j.tally

/-- Append outputs in order. -/
def addAll (j : Journal) (os : List Output) : Journal := os.foldl add j

/-- The outputs that were added to `j` after it was `earlier`. -/
def since (j earlier : Journal) : List Output := j.outputs.toList.drop earlier.outputs.size

/-- The records so far. -/
def records (j : Journal) : List Record := j.outputs.toList.filterMap Output.record?

/-- The inconsistencies reported so far. -/
def reports (j : Journal) : List Inconsistency := j.outputs.toList.filterMap Output.report?

@[simp] theorem toList_outputs_add (j : Journal) (o : Output) :
    (j.add o).outputs.toList = j.outputs.toList ++ [o] := by
  simp [add]

@[simp] theorem toList_outputs_addAll (j : Journal) (os : List Output) :
    (j.addAll os).outputs.toList = j.outputs.toList ++ os := by
  induction os generalizing j with
  | nil => simp [addAll]
  | cons o os ih =>
    have h := ih (j.add o)
    simp only [toList_outputs_add, List.append_assoc, List.singleton_append] at h
    exact h

/-- What was added last is what `since` finds. -/
theorem since_addAll (j : Journal) (os : List Output) : (j.addAll os).since j = os := by
  simp [since]

end Journal

end LockTrace
