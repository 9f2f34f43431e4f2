import CrossRef.Markup.Walk
import CrossRef.Proofs.Text.Boundary

namespace CrossRef.Markup

variable {σ ν : Type}

theorem ok_of_bind {ε α β : Type} {x : Except ε α} {f : α → Except ε β} {b : β}
    (h : x >>= f = .ok b) : ∃ a, x = .ok a ∧ f a = .ok b := by
  cases x with
  | error fault => exact absurd h (by simp [bind, Except.bind])
  | ok a => exact ⟨a, rfl, h⟩

namespace Cursor

/-- The cursor behind `gap`, with a node for it unless it is empty. -/
def emit (e : Emitter σ ν) (gap rest : List Char) (c : Cursor σ ν) : Cursor σ ν :=
  if gap = [] then c
  else
    let (node, state) := e.text c.pos (String.ofList gap) c.state
    ⟨c.pos + Text.size gap, rest, node :: c.nodes, state⟩

/-- The cursor behind a fact, with one node for all that stands in it. -/
def close (e : Emitter σ ν) (frame : Frame ν) (c : Cursor σ ν) : Cursor σ ν :=
  let (node, state) := e.wrap frame.fact c.nodes.reverse c.state
  { c with nodes := node :: frame.before, state := state }

variable {e : Emitter σ ν} {c : Cursor σ ν} {gap rest : List Char} {frame : Frame ν}

@[simp] theorem emit_pos : (c.emit e gap rest).pos = c.pos + Text.size gap := by
  unfold emit
  split
  case isTrue h => simp [h]
  case isFalse => rfl

theorem emit_rest (h : c.rest = gap ++ rest) : (c.emit e gap rest).rest = rest := by
  unfold emit
  split
  case isTrue hnil => simpa [hnil] using h
  case isFalse => rfl

theorem advance_eq {size bound : Nat} (h : c.rest = gap ++ rest)
    (hb : c.pos + Text.size gap = max c.pos bound) :
    c.advance e size bound = .ok (c.emit e gap rest) := by
  unfold advance emit
  by_cases hlt : c.pos < bound
  · have hgap : Text.size gap = bound - c.pos := by omega
    have hne : gap ≠ [] := by
      intro hnil
      rw [hnil, Text.size_nil] at hgap
      omega
    have hbound : c.pos + Text.size gap = bound := by omega
    rw [if_pos hlt, if_neg hne, ← hgap, h, Text.splitAt?_append, hbound]
  · obtain rfl : gap = [] := Text.size_eq_zero.1 (by omega)
    rw [if_neg hlt, if_pos rfl]

/-- What stands before `bound` is emitted, if it ends with a character. -/
theorem advance_cases (e : Emitter σ ν) (size bound : Nat) (c : Cursor σ ν) :
    (∃ gap rest, c.rest = gap ++ rest ∧ c.pos + Text.size gap = max c.pos bound ∧
      c.advance e size bound = .ok (c.emit e gap rest)) ∨
    c.pos < bound ∧ ¬ Text.IsBoundary c.rest (bound - c.pos) ∧
      c.advance e size bound = c.fail (.invalidOffset bound size) := by
  by_cases hlt : c.pos < bound
  · cases hcut : Text.splitAt? (bound - c.pos) c.rest with
    | none =>
      right
      refine ⟨hlt, by simp [Text.isBoundary_iff, hcut], ?_⟩
      rw [advance, if_pos hlt, hcut]
    | some parts =>
      left
      obtain ⟨hrest, hsize⟩ := Text.splitAt?_eq_some_iff.1 hcut
      have hb : c.pos + Text.size parts.1 = max c.pos bound := by omega
      exact ⟨parts.1, parts.2, hrest, hb, advance_eq hrest hb⟩
  · left
    have hb : c.pos + Text.size [] = max c.pos bound := by simp; omega
    exact ⟨[], c.rest, rfl, hb, advance_eq rfl hb⟩

theorem leave_eq (e : Emitter σ ν) (size : Nat) (frame : Frame ν) (c : Cursor σ ν) :
    c.leave e size frame = (c.advance e size frame.fact.stop).map (close e frame) := by
  unfold leave
  cases c.advance e size frame.fact.stop with
  | error stop => rfl
  | ok c => rfl

theorem misplaced?_eq {size : Nat} {fact : Fact} (h : c.pos ≤ fact.start.toNat) :
    c.misplaced? size fact =
      if ¬ Text.IsBoundary c.rest (fact.start.toNat - c.pos) then
        some (.invalidOffset fact.start.toNat size)
      else if ¬ Text.IsBoundary c.rest (fact.stop - c.pos) then
        some (.invalidOffset fact.stop size)
      else none := by
  unfold misplaced?
  cases hcut : Text.splitAt? (fact.start.toNat - c.pos) c.rest with
  | none => simp [Text.isBoundary_iff, hcut]
  | some parts =>
    obtain ⟨gap, rest⟩ := parts
    obtain ⟨hrest, hsize⟩ := Text.splitAt?_eq_some_iff.1 hcut
    have hstart : Text.IsBoundary c.rest (fact.start.toNat - c.pos) := ⟨gap, rest, hrest, hsize⟩
    have hstop : Text.IsBoundary c.rest (fact.stop - c.pos) ↔
        (Text.splitAt? fact.length.toNat rest).isSome := by
      have hle : Text.size gap ≤ fact.stop - c.pos := by unfold Fact.stop; omega
      have hlen : fact.stop - c.pos - Text.size gap = fact.length.toNat := by
        unfold Fact.stop
        omega
      rw [hrest, Text.isBoundary_append hle, hlen, Text.isBoundary_iff]
    rw [if_neg (not_not_intro hstart)]
    cases hlen : Text.splitAt? fact.length.toNat rest with
    | none => simp [hstop, hlen]
    | some parts => simp [hstop, hlen]

end Cursor

namespace Walk

/-- The walk with `fact` as its innermost open fact. -/
def opening (fact : Fact) (w : Walk σ ν) : Walk σ ν :=
  ⟨{ w.cursor with nodes := [] }, ⟨fact, w.cursor.nodes⟩ :: w.opened⟩

/-- What entering a fact comes to once the facts that are over have been left. -/
def accept (e : Emitter σ ν) (size : Nat) (fact : Fact) (w : Walk σ ν) :
    Except (Stop σ) (Walk σ ν) :=
  if w.bound size < fact.stop ∨ fact.start.toNat < w.cursor.pos then
    w.cursor.fail (.brokenNesting fact.start.toNat fact.stop (w.bound size))
  else
    match w.cursor.misplaced? size fact with
    | some fault => w.cursor.fail fault
    | none =>
      (w.cursor.advance e size fact.start.toNat).map fun c => opening fact { w with cursor := c }

theorem enter_eq (e : Emitter σ ν) (size : Nat) (w : Walk σ ν) (fact : Fact) :
    w.enter e size fact =
      leaveWhile e size (fun f => f.stop ≤ fact.start.toNat) w.opened w.cursor >>=
        accept e size fact := by
  rfl

end Walk

end CrossRef.Markup
