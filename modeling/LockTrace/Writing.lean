import LockTrace.Sink

/-!
# Work that writes

Work hands over its outputs to a sink one by one, as they come. A record that the sink turns
down ends the work on the spot: what would have come after it is not done.
-/

namespace LockTrace

/-- Work on a sink. -/
def Writing (α : Type) : Type := Sink → Sink.Settled α

namespace Writing

variable {α β : Type}

def done (a : α) : Writing α := fun sink => ⟨[], .ok (sink, a)⟩

/-- Go on with other work, unless the first was stopped. -/
def andThen (w : Writing α) (next : α → Writing β) : Writing β := fun sink =>
  match w sink with
  | ⟨through, .error cause⟩ => ⟨through, .error cause⟩
  | ⟨through, .ok (sink, a)⟩ =>
    let later := next a sink
    { later with through := through ++ later.through }

instance : Monad Writing where
  pure := done
  bind := andThen

/-- Stop the work for a cause of its own. -/
def stop (cause : Fatal) : Writing α := fun _ => ⟨[], .error cause⟩

/-- Hand over one output. -/
def put (o : Output) : Writing Unit := fun sink => sink.settle [o] (.ok ())

/-- Hand over outputs, one by one. -/
def putAll : List Output → Writing Unit
  | [] => pure ()
  | o :: os => do
    put o
    putAll os

end Writing

end LockTrace
