import CrossRef.Fact
import CrossRef.Fault
import CrossRef.Text

/-!
The walk over a text and its facts. It goes from left to right once, keeps the facts that are open
on a stack, and hands every gap of plain text and every closed fact to an emitter. Facts must nest,
and their ends must fall between characters.
-/

namespace CrossRef.Markup

/-- What a walk builds: nodes `ν` out of texts and facts, with a state `σ` of its own. -/
structure Emitter (σ ν : Type) where
  text : Nat → String → σ → ν × σ
  wrap : Fact → List ν → σ → ν × σ

/-- A walk that stopped, with the emitter's state at that point. -/
structure Stop (σ : Type) where
  fault : Fault
  state : σ

/-- Where a walk stands within the innermost open fact; the nodes of that fact are newest first. -/
structure Cursor (σ ν : Type) where
  pos : Nat
  rest : List Char
  nodes : List ν
  state : σ

/-- An open fact and the nodes that stand before it, newest first. -/
structure Frame (ν : Type) where
  fact : Fact
  before : List ν

structure Walk (σ ν : Type) where
  cursor : Cursor σ ν
  opened : List (Frame ν)

variable {σ ν : Type}

namespace Cursor

def start (text : String) (state : σ) : Cursor σ ν := ⟨0, text.toList, [], state⟩

def fail {α : Type} (c : Cursor σ ν) (fault : Fault) : Except (Stop σ) α :=
  .error ⟨fault, c.state⟩

/-- Emits the text up to `bound`, if there is any; `size` is the length of the whole text. -/
def advance (e : Emitter σ ν) (size bound : Nat) (c : Cursor σ ν) : Except (Stop σ) (Cursor σ ν) :=
  if c.pos < bound then
    match Text.splitAt? (bound - c.pos) c.rest with
    | none => c.fail (.invalidOffset bound size)
    | some (gap, rest) =>
      let (node, state) := e.text c.pos (String.ofList gap) c.state
      .ok ⟨bound, rest, node :: c.nodes, state⟩
  else .ok c

/-- Wraps the nodes of the innermost fact, after the text that is left in it. -/
def leave (e : Emitter σ ν) (size : Nat) (frame : Frame ν) (c : Cursor σ ν) :
    Except (Stop σ) (Cursor σ ν) := do
  let c ← c.advance e size frame.fact.stop
  let (node, state) := e.wrap frame.fact c.nodes.reverse c.state
  return { c with nodes := node :: frame.before, state := state }

/-- The fault of a fact that begins here, if its ends fall inside characters. -/
def misplaced? (size : Nat) (fact : Fact) (c : Cursor σ ν) : Option Fault :=
  match Text.splitAt? (fact.start.toNat - c.pos) c.rest with
  | none => some (.invalidOffset fact.start.toNat size)
  | some (_, rest) =>
    match Text.splitAt? fact.length.toNat rest with
    | none => some (.invalidOffset fact.stop size)
    | some _ => none

end Cursor

/-- Leaves the open facts, innermost first, as long as `isOver` holds of them. -/
def leaveWhile (e : Emitter σ ν) (size : Nat) (isOver : Fact → Bool) :
    List (Frame ν) → Cursor σ ν → Except (Stop σ) (Walk σ ν)
  | [], c => .ok ⟨c, []⟩
  | frame :: outer, c =>
    if isOver frame.fact then do
      let c ← c.leave e size frame
      leaveWhile e size isOver outer c
    else .ok ⟨c, frame :: outer⟩

namespace Walk

def bound (size : Nat) (w : Walk σ ν) : Nat :=
  match w.opened with
  | [] => size
  | frame :: _ => frame.fact.stop

/-- Opens a fact: leaves the facts that end at its start or before, checks that it nests in the
innermost one left, and emits the text before it. -/
def enter (e : Emitter σ ν) (size : Nat) (w : Walk σ ν) (fact : Fact) :
    Except (Stop σ) (Walk σ ν) := do
  let w ← leaveWhile e size (fun f => f.stop ≤ fact.start.toNat) w.opened w.cursor
  let bound := w.bound size
  if bound < fact.stop ∨ fact.start.toNat < w.cursor.pos then
    w.cursor.fail (.brokenNesting fact.start.toNat fact.stop bound)
  else
    match w.cursor.misplaced? size fact with
    | some fault => w.cursor.fail fault
    | none =>
      let c ← w.cursor.advance e size fact.start.toNat
      return ⟨{ c with nodes := [] }, ⟨fact, c.nodes⟩ :: w.opened⟩

def finish (e : Emitter σ ν) (size : Nat) (w : Walk σ ν) : Except (Stop σ) (List ν × σ) := do
  let w ← leaveWhile e size (fun _ => true) w.opened w.cursor
  let c ← w.cursor.advance e size size
  return (c.nodes.reverse, c.state)

end Walk

/-- The order of a walk: by start, facts of one start as given. -/
def inOrder (facts : List Fact) : List Fact := facts.mergeSort fun f g => f.start ≤ g.start

/-- Walks over `text` with `facts` attached; of facts with one start a parent comes before the
facts it encloses. -/
def render (e : Emitter σ ν) (text : String) (facts : List Fact) (state : σ) :
    Except (Stop σ) (List ν × σ) := do
  let size := Text.size text.toList
  let w ← (inOrder facts).foldlM (Walk.enter e size) ⟨Cursor.start text state, []⟩
  w.finish e size

end CrossRef.Markup
