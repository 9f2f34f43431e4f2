import CrossRef.Feed.Run

namespace CrossRef.Feed

/-- What a producer does by itself: the calls it sends, and how it ends. -/
structure Production (α : Type) where
  calls : List Call
  result : Except Fault α

variable {σ τ α : Type}

/-- The count of calls that the worker ended with; a worker that did not end has closed the
queue. -/
def Run.result (r : Run τ) : Except Fault Nat :=
  match r.worker with
  | .ended result => result
  | _ => .error (.queueClosed r.artifact)

/-- Runs a production against a fresh transaction on `s`, which is committed at the end. A call that
fails counts before the producer's own fault, and any fault rolls the transaction back. -/
def Provider.session (p : Provider σ τ) (artifact : String) (capacity : Nat)
    (production : Production α) (s : σ) : Except Fault α × σ :=
  match p.begin artifact s with
  | .error fault => (.error fault, s)
  | .ok tx =>
    let r := (Run.start artifact capacity [production.calls] tx).finish p.apply
    match r.result with
    | .error fault => (.error fault, p.rollback r.target)
    | .ok _ =>
      match production.result with
      | .error fault => (.error fault, p.rollback r.target)
      | .ok a =>
        match p.commit r.target with
        | (.error fault, s) => (.error fault, s)
        | (.ok (), s) => (.ok a, s)

end CrossRef.Feed
