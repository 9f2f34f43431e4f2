import CrossRef.Fact
import CrossRef.Fault

namespace CrossRef

namespace Fact

/-- Rank among facts of one start: empty facts first, then the longer before the shorter. -/
def rank (f : Fact) : Nat := if f.length = 0 then 0 else UInt32.size - f.length.toNat

def precedes (f g : Fact) : Bool := f.start < g.start ∨ (f.start = g.start ∧ f.rank ≤ g.rank)

def sameRange (f g : Fact) : Bool := f.start = g.start ∧ f.length = g.length

end Fact

inductive Encounter
  | apart
  | merged (payload : Payload)
  | clash (first second : Binding)

def Payload.meet : Payload → Payload → Encounter
  | .style left, .style right => .merged (.style (left.union right))
  | .reference left kind _, .reference right kind' _ =>
    if kind = kind' ∧ ¬ kind.mayCoincide then .clash left right else .apart
  | _, _ => .apart

namespace Normal

structure Clash where
  start : UInt32
  length : UInt32
  first : Binding
  second : Binding
  deriving DecidableEq

def Clash.fault (c : Clash) : Fault :=
  .duplicateReference c.start.toNat c.length.toNat c.first.text c.second.text

/-- Meets `f` with the facts of its range behind it; what merges into `f` leaves the list. -/
def absorb (f : Fact) : List Fact → Except Clash (Fact × List Fact)
  | [] => .ok (f, [])
  | g :: rest =>
    if f.sameRange g then
      match f.payload.meet g.payload with
      | .clash first second => .error ⟨f.start, f.length, first, second⟩
      | .merged payload => absorb { f with payload := payload } rest
      | .apart => (absorb f rest).map fun (f', rest') => (f', g :: rest')
    else .ok (f, g :: rest)

/-- Absorbs from left to right, at most `n` times; a clash leaves the facts from there on as they
are. -/
def settle : Nat → List Fact → List Fact × Option Clash
  | 0, facts => (facts, none)
  | _ + 1, [] => ([], none)
  | n + 1, f :: rest =>
    match absorb f rest with
    | .error clash => (f :: rest, some clash)
    | .ok (f', rest') =>
      let (settled, clash) := settle n rest'
      (f' :: settled, clash)

end Normal

/-- The facts in normal order and the first clash, if there is one; facts of equal rank keep their
order. -/
def normalize (facts : List Fact) : List Fact × Option Normal.Clash :=
  Normal.settle facts.length (facts.mergeSort Fact.precedes)

namespace SourceFile

/-- The file as far as its facts could be brought into normal order, and the fault that stopped
it. -/
def normalize (file : SourceFile) : SourceFile × Option Fault :=
  let (facts, clash) := CrossRef.normalize file.facts
  ({ file with facts := facts }, clash.map Normal.Clash.fault)

end SourceFile

end CrossRef
