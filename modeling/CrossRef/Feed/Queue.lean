namespace CrossRef.Feed

/-- A bounded queue. Senders are numbers: those who found no free slot stand in `line`, and for the
`reserved` a slot is kept until they send again. -/
structure Queue (α : Type) where
  free : Nat
  items : List α
  line : List Nat
  reserved : List Nat
  closed : Bool
  deriving DecidableEq, Repr

inductive Sending
  | accepted
  | waiting
  | refused
  deriving DecidableEq, Repr

namespace Queue

variable {α : Type}

/-- An empty queue has a slot at least. -/
def ofCapacity (capacity : Nat) : Queue α := ⟨max capacity 1, [], [], [], false⟩

def push (a : α) (q : Queue α) : Queue α := { q with items := q.items ++ [a] }

def send (sender : Nat) (a : α) (q : Queue α) : Sending × Queue α :=
  if q.closed then (.refused, q)
  else if sender ∈ q.reserved then
    (.accepted, { q with reserved := q.reserved.erase sender }.push a)
  else if sender ∈ q.line then (.waiting, q)
  else match q.free with
    | free + 1 => (.accepted, { q with free := free }.push a)
    | 0 => (.waiting, { q with line := q.line ++ [sender] })

/-- A slot becomes free, or is kept for the first in line. -/
def release (q : Queue α) : Queue α :=
  match q.line with
  | [] => { q with free := q.free + 1 }
  | sender :: rest => { q with line := rest, reserved := sender :: q.reserved }

def take? (q : Queue α) : Option (α × Queue α) :=
  match q.items with
  | [] => none
  | a :: rest => some (a, { q with items := rest }.release)

/-- A sender gives up: he leaves the line, or the slot that is kept for him becomes free. -/
def withdraw (sender : Nat) (q : Queue α) : Queue α :=
  if sender ∈ q.reserved then { q with reserved := q.reserved.erase sender }.release
  else { q with line := q.line.erase sender }

/-- From now on nothing is accepted; what is queued is lost. -/
def close (q : Queue α) : Queue α := { q with items := [], closed := true }

end Queue

end CrossRef.Feed
