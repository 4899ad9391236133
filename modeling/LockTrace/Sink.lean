import LockTrace.Fatal
import LockTrace.Journal

/-!
# Sinks

Records go to a sink, and a sink can be full. The work stops at the first record that the
sink does not take; what would have come after it is neither written nor reported.
-/

namespace LockTrace

/-- A place for records. `room` is the number of records that it still takes, if there is a
    limit. -/
structure Sink where
  room : Option Nat
deriving DecidableEq, Repr

namespace Sink

/-- The sink that takes every record. -/
def unlimited : Sink := ⟨none⟩

/-- The cause of the failure of a full sink. -/
def full : Fatal := .output "sink is full"

/-- What becomes of outputs that are offered to a sink: those that got through, and the sink
    afterwards, or nothing in its place if it has turned a record down. -/
structure Delivery where
  through : List Output
  sink : Option Sink
deriving DecidableEq, Repr

/-- Offer outputs to a sink that takes `room` more records. -/
def offerLimited (room : Nat) : List Output → Delivery
  | [] => ⟨[], some ⟨some room⟩⟩
  | .record r :: os =>
    match room with
    | 0 => ⟨[], none⟩
    | room + 1 =>
      let d := offerLimited room os
      { d with through := .record r :: d.through }
  | o :: os =>
    let d := offerLimited room os
    { d with through := o :: d.through }

/-- Offer outputs to a sink, in order. -/
def offer (s : Sink) (os : List Output) : Delivery :=
  match s.room with
  | none => ⟨os, some s⟩
  | some room => offerLimited room os

/-- What a step comes to when its outputs go to a sink. -/
structure Settled (α : Type) where
  through : List Output
  result : Except Fatal (Sink × α)

/-- Settle a step that brought forth `os` and came to `result`. The sink fails before the
    step does. -/
def settle {α : Type} (s : Sink) (os : List Output) (result : Except Fatal α) : Settled α :=
  let d := s.offer os
  match d.sink with
  | none => ⟨d.through, .error full⟩
  | some s => ⟨d.through, result.map (s, ·)⟩

end Sink

end LockTrace
