import LockTrace.Journal

/-!
# Log lines

What a run tells its user on the way: warnings about the trace, and remarks on the course of
the work.
-/

namespace LockTrace

/-- How much a log line matters, the least first. -/
inductive Level where
  | debug
  | info
  | warn
  | error
deriving DecidableEq, Repr

namespace Level

def name : Level → String
  | debug => "DEBUG"
  | info => "INFO"
  | warn => "WARN"
  | error => "ERROR"

/-- The place in the order of levels. -/
def rank : Level → Nat
  | debug => 0
  | info => 1
  | warn => 2
  | error => 3

end Level

/-- The name under which a run logs. -/
def programName : String := "lockdoc"

/-- A message and how much it matters. -/
structure LogLine where
  level : Level
  message : String
deriving DecidableEq, Repr

namespace LogLine

/-- A line as it is written. Its message can hold ends of lines. -/
def text (l : LogLine) : String := l.level.name ++ " " ++ programName ++ " - " ++ l.message

/-- Whether a line matters at least as much as a given level. -/
def isAtLeast (l : LogLine) (level : Level) : Bool := decide (level.rank ≤ l.level.rank)

end LogLine

open Numeral (decimal signed)

/-- The log line of a remark. -/
def Remark.logLine : Remark → LogLine
  | closing time => ⟨.info, "Closing the remaining TXNs at ts=" ++ decimal time.toNat⟩
  | stillActive count ctx =>
    ⟨.info, "TXN: There are still " ++ decimal count ++ " TXNs active in ctx " ++
      signed ctx.toInt ++ ", flushing the topmost one."⟩
  | suppressed txn => ⟨.debug, "Leaving out TXN " ++ decimal txn ++ " without accesses"⟩
  | purged txn ctx time =>
    ⟨.debug, "Flushing TXN " ++ decimal txn ++ " in ctx " ++ signed ctx.toInt ++ " at ts=" ++
      decimal time.toNat⟩

/-- The log line of an output. Records are written, not logged. -/
def Output.logLine? : Output → Option LogLine
  | record _ => none
  | report i => some ⟨.warn, i.message⟩
  | remark r => some r.logLine

/-- The messages of the warnings among some log lines. -/
def warningsOf (log : List LogLine) : List String :=
  (log.filter (fun l => l.level = .warn)).map LogLine.message

end LockTrace
