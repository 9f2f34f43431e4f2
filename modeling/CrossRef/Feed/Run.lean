import CrossRef.Feed.Call
import CrossRef.Feed.Queue

namespace CrossRef.Feed

/-- Where a producer or the worker is; one that ended has a count of calls or a fault. -/
inductive Progress
  | running
  | ended (result : Except Fault Nat)
  | cancelled

def Progress.isRunning : Progress → Bool
  | .running => true
  | _ => false

/-- A producer with the calls still to send; the first of them may have been tried already. -/
structure Producer where
  pending : List Call
  sent : Nat
  tried : Bool
  progress : Progress

namespace Producer

def start (calls : List Call) : Producer := ⟨calls, 0, false, .running⟩

def submitted (p : Producer) : Nat := p.sent + if p.tried then 1 else 0

/-- Sends as many calls as the queue accepts; `i` is the producer's number. -/
def advance (artifact : String) (i : Nat) : List Call → Nat → Queue Call → Producer × Queue Call
  | [], sent, q => (⟨[], sent, false, .ended (.ok sent)⟩, q)
  | call :: rest, sent, q =>
    match q.send i call with
    | (.accepted, q) => advance artifact i rest (sent + 1) q
    | (.waiting, q) => (⟨call :: rest, sent, true, .running⟩, q)
    | (.refused, q) => (⟨call :: rest, sent, true, .ended (.error (.queueClosed artifact))⟩, q)

end Producer

/-- A run in the middle; `target` is what the calls are carried out on. -/
structure Run (τ : Type) where
  artifact : String
  queue : Queue Call
  producers : List Producer
  worker : Progress
  applied : Nat
  target : τ

inductive Turn
  | producer (i : Nat)
  | worker
  | cancelProducer (i : Nat)
  | cancelWorker
  deriving DecidableEq, Repr

/-- What a turn shows: a result when one is reached, `gone` for one who ended before. -/
inductive Outcome
  | pending
  | done (result : Except Fault Nat)
  | gone
  | cancelled

def Outcome.ofProgress : Progress → Outcome
  | .running => .pending
  | .ended result => .done result
  | .cancelled => .cancelled

namespace Run

variable {τ : Type} (apply : Call → τ → Except Fault Unit × τ)

def start (artifact : String) (capacity : Nat) (producers : List (List Call)) (target : τ) :
    Run τ :=
  ⟨artifact, .ofCapacity capacity, producers.map Producer.start, .running, 0, target⟩

/-- Carries out the oldest queued call, if there is one. A call that fails ends the worker and
closes the queue. -/
def carryOut? (r : Run τ) : Option (Run τ) :=
  r.queue.take?.map fun (call, queue) =>
    match apply call r.target with
    | (.error fault, target) =>
      { r with queue := queue.close, worker := .ended (.error fault), target := target }
    | (.ok (), target) => { r with queue := queue, applied := r.applied + 1, target := target }

def drain : Nat → Run τ → Run τ
  | 0, r => r
  | n + 1, r =>
    match carryOut? apply r with
    | none => r
    | some r => drain n r

/-- The worker ends when the queue is empty and no producer is left to fill it. -/
def pollWorker (r : Run τ) : Run τ :=
  let r := drain apply r.queue.items.length r
  if r.worker.isRunning ∧ r.producers.all fun p => !p.progress.isRunning then
    { r with worker := .ended (.ok r.applied) }
  else r

def pollProducer (i : Nat) (p : Producer) (r : Run τ) : Run τ :=
  let (p, queue) := Producer.advance r.artifact i p.pending p.sent r.queue
  { r with queue := queue, producers := r.producers.set i p }

def cancelProducer (i : Nat) (p : Producer) (r : Run τ) : Run τ :=
  { r with
    queue := r.queue.withdraw i
    producers := r.producers.set i { p with progress := .cancelled } }

def turn (t : Turn) (r : Run τ) : Outcome × Run τ :=
  match t with
  | .producer i =>
    match r.producers[i]? with
    | some p =>
      if p.progress.isRunning then
        let r := pollProducer i p r
        (match r.producers[i]? with
          | some p => .ofProgress p.progress
          | none => .gone, r)
      else (.gone, r)
    | none => (.gone, r)
  | .worker =>
    if r.worker.isRunning then
      let r := pollWorker apply r
      (.ofProgress r.worker, r)
    else (.gone, r)
  | .cancelProducer i =>
    match r.producers[i]? with
    | some p => if p.progress.isRunning then (.cancelled, cancelProducer i p r) else (.gone, r)
    | none => (.gone, r)
  | .cancelWorker =>
    if r.worker.isRunning then (.cancelled, { r with queue := r.queue.close, worker := .cancelled })
    else (.gone, r)

def turns (ts : List Turn) (r : Run τ) : Run τ := ts.foldl (fun r t => (turn apply t r).2) r

def round (r : Run τ) : List Turn := (List.range r.producers.length).map Turn.producer ++ [.worker]

/-- Goes round at most `n` times until the worker has ended. -/
def rounds : Nat → Run τ → Run τ
  | 0, r => r
  | n + 1, r => if r.worker.isRunning then rounds n (turns apply r.round r) else r

/-- Goes round until the end: every round carries out a call or is the last. -/
def finish (r : Run τ) : Run τ :=
  rounds apply ((r.producers.flatMap Producer.pending).length + 1) r

end Run

end CrossRef.Feed
