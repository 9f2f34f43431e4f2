import CrossRef.Proofs.Markup.Forest
import CrossRef.Proofs.Markup.Moves

namespace CrossRef.Markup

open Node (listFacts listChars ListPlaced TextsApart)
open Text (size)

/-- Where the innermost open fact begins, or else the text. -/
def base : List (Frame Node) → Nat
  | [] => 0
  | frame :: _ => frame.fact.start.toNat

/-- Offset `n` lies before the end of the innermost open fact. -/
def Under (frames : List (Frame Node)) (n : Nat) : Prop :=
  ∀ frame ∈ frames.head?, n < frame.fact.stop

/-- The nodes of one level, newest first, go from where it begins to `pos`. -/
structure Layer (frames : List (Frame Node)) (nodes : List Node) (pos : Nat) : Prop where
  placed : ListPlaced (base frames) nodes.reverse
  apart : TextsApart nodes.reverse
  upTo : base frames + size (listChars nodes.reverse) = pos
  under : ∀ f ∈ listFacts nodes.reverse, Under frames f.start.toNat

/-- The nodes of all levels that stand open, from the innermost. -/
inductive Layered : List (Frame Node) → List Node → Nat → Prop
  | outermost {nodes : List Node} {pos : Nat} : Layer [] nodes pos → Layered [] nodes pos
  | within {frame : Frame Node} {outer : List (Frame Node)} {nodes : List Node} {pos : Nat} :
      Layer (frame :: outer) nodes pos → Under outer frame.fact.start.toNat →
      (∀ f ∈ outer.head?, frame.fact.stop ≤ f.fact.stop) →
      Layered outer frame.before frame.fact.start.toNat → Layered (frame :: outer) nodes pos

/-- The facts met so far. -/
def factsSoFar : List (Frame Node) → List Node → List Fact
  | [], nodes => listFacts nodes.reverse
  | frame :: outer, nodes =>
    factsSoFar outer frame.before ++ frame.fact :: listFacts nodes.reverse

/-- The text emitted so far. -/
def charsSoFar : List (Frame Node) → List Node → List Char
  | [], nodes => listChars nodes.reverse
  | frame :: outer, nodes => charsSoFar outer frame.before ++ listChars nodes.reverse

/-- The latest node of a level is no text, so that a text may follow. -/
def Closed (nodes : List Node) : Prop := ∀ node ∈ nodes.head?, ¬ node.isText

variable {frames : List (Frame Node)} {frame : Frame Node} {nodes : List Node} {pos : Nat}

theorem Layered.layer (h : Layered frames nodes pos) : Layer frames nodes pos := by
  cases h with
  | outermost hlayer => exact hlayer
  | within hlayer => exact hlayer

/-- A level may grow as long as it stays in order. -/
theorem Layered.grow (h : Layered frames nodes pos) {nodes' : List Node} {pos' : Nat}
    (hlayer : Layer frames nodes' pos') : Layered frames nodes' pos' := by
  cases h with
  | outermost => exact .outermost hlayer
  | within _ hunder hstop houter => exact .within hlayer hunder hstop houter

theorem Layer.text (h : Layer frames nodes pos) (hclosed : Closed nodes) {gap : List Char}
    (hgap : gap ≠ []) :
    Layer frames (.text pos (String.ofList gap) :: nodes) (pos + size gap) := by
  have hchars : listChars [Node.text pos (String.ofList gap)] = gap := by
    simp [listChars, Node.chars]
  refine ⟨?_, ?_, ?_, ?_⟩
  · rw [List.reverse_cons, Node.listPlaced_append]
    refine ⟨h.placed, ⟨h.upTo.symm, ?_⟩, trivial⟩
    intro hempty
    exact hgap (by simpa using congrArg String.toList hempty)
  · rw [List.reverse_cons, TextsApart, List.isChain_append]
    refine ⟨h.apart, .singleton _, ?_⟩
    intro node hnode _ _ hboth
    rw [List.getLast?_reverse] at hnode
    exact hclosed node hnode hboth.1
  · rw [List.reverse_cons, Node.listChars_append, Text.size_append, hchars, ← Nat.add_assoc,
      h.upTo]
  · rw [List.reverse_cons, Node.listFacts_append]
    simpa [listFacts, Node.facts] using h.under

/-- What stands in an open fact becomes one node of the level around it. -/
theorem Layered.close (h : Layered (frame :: frames) nodes frame.fact.stop) :
    Layered frames (.annotated frame.fact nodes.reverse :: frame.before) frame.fact.stop := by
  cases h with
  | within hinner hunder hstop houter =>
    have hbefore := houter.layer
    have hsize : size (listChars nodes.reverse) = frame.fact.length.toNat := by
      have hpos := hinner.upTo
      simp only [base, Fact.stop] at hpos
      omega
    have hchars : listChars [Node.annotated frame.fact nodes.reverse] = listChars nodes.reverse := by
      simp [listChars, Node.chars]
    refine houter.grow ⟨?_, ?_, ?_, ?_⟩
    · rw [List.reverse_cons, Node.listPlaced_append]
      refine ⟨hbefore.placed, ⟨hbefore.upTo.symm, hsize, ?_, hinner.apart, ?_⟩, trivial⟩
      · exact fun f hf => hinner.under f hf frame rfl
      · rw [hbefore.upTo]
        exact hinner.placed
    · rw [List.reverse_cons, TextsApart, List.isChain_append]
      refine ⟨hbefore.apart, .singleton _, ?_⟩
      intro _ _ node hnode hboth
      obtain rfl : Node.annotated frame.fact nodes.reverse = node := by simpa using hnode
      simp [Node.isText] at hboth
    · rw [List.reverse_cons, Node.listChars_append, Text.size_append, hchars, ← Nat.add_assoc,
        hbefore.upTo, hsize]
      rfl
    · rw [List.reverse_cons, Node.listFacts_append]
      intro f hf
      simp only [listFacts, Node.facts, List.append_nil, List.mem_append, List.mem_cons] at hf
      rcases hf with hf | rfl | hf
      · exact hbefore.under f hf
      · exact hunder
      · intro outer houter
        exact (hinner.under f hf frame rfl).trans_le (hstop outer houter)

theorem Layered.opening (h : Layered frames nodes pos) {fact : Fact}
    (hpos : pos = fact.start.toNat) (hunder : Under frames fact.start.toNat)
    (hstop : ∀ f ∈ frames.head?, fact.stop ≤ f.fact.stop) :
    Layered (⟨fact, nodes⟩ :: frames) [] fact.start.toNat := by
  refine .within ⟨trivial, .nil, rfl, by simp [listFacts]⟩ hunder hstop ?_
  rw [← hpos]
  exact h

theorem factsSoFar_close :
    factsSoFar frames (.annotated frame.fact nodes.reverse :: frame.before) =
      factsSoFar (frame :: frames) nodes := by
  cases frames <;> simp [factsSoFar, Node.listFacts_append, listFacts, Node.facts]

theorem charsSoFar_close :
    charsSoFar frames (.annotated frame.fact nodes.reverse :: frame.before) =
      charsSoFar (frame :: frames) nodes := by
  cases frames <;> simp [charsSoFar, Node.listChars_append, listChars, Node.chars]

/-- The tree of a walk that has entered the facts `done` has these facts and the text up to the
cursor. -/
structure Grows (cs : List Char) (done : List Fact) (w : Walk Unit Node) : Prop where
  layered : Layered w.opened w.cursor.nodes w.cursor.pos
  ahead : ∀ frame ∈ w.opened.head?, w.cursor.pos ≤ frame.fact.stop
  facts : factsSoFar w.opened w.cursor.nodes = done
  chars : charsSoFar w.opened w.cursor.nodes ++ w.cursor.rest = cs

variable {cs : List Char} {done : List Fact} {c : Cursor Unit Node} {gap rest : List Char}

theorem Grows.emit (h : Grows cs done ⟨c, frames⟩) (hclosed : Closed c.nodes)
    (hrest : c.rest = gap ++ rest)
    (hahead : ∀ frame ∈ frames.head?, c.pos + size gap ≤ frame.fact.stop) :
    Grows cs done ⟨c.emit Node.emitter gap rest, frames⟩ := by
  by_cases hgap : gap = []
  · subst hgap
    exact h
  have hemit : c.emit Node.emitter gap rest =
      ⟨c.pos + size gap, rest, .text c.pos (String.ofList gap) :: c.nodes, c.state⟩ := by
    rw [Cursor.emit, if_neg hgap]
    rfl
  have hfacts : factsSoFar frames (.text c.pos (String.ofList gap) :: c.nodes) =
      factsSoFar frames c.nodes := by
    cases frames <;> simp [factsSoFar, Node.listFacts_append, listFacts, Node.facts]
  have hchars : charsSoFar frames (.text c.pos (String.ofList gap) :: c.nodes) =
      charsSoFar frames c.nodes ++ gap := by
    cases frames <;> simp [charsSoFar, Node.listChars_append, listChars, Node.chars]
  rw [hemit]
  refine ⟨h.layered.grow (h.layered.layer.text hclosed hgap), hahead, ?_, ?_⟩
  · exact hfacts.trans h.facts
  · change charsSoFar frames _ ++ rest = cs
    rw [hchars, List.append_assoc, ← hrest]
    exact h.chars

theorem Grows.close (h : Grows cs done ⟨c, frame :: frames⟩) (hpos : c.pos = frame.fact.stop) :
    Grows cs done ⟨c.close Node.emitter frame, frames⟩ ∧
      Closed (c.close Node.emitter frame).nodes := by
  have hclose : c.close Node.emitter frame =
      ⟨c.pos, c.rest, .annotated frame.fact c.nodes.reverse :: frame.before, c.state⟩ := rfl
  have hlayered : Layered (frame :: frames) c.nodes frame.fact.stop := hpos ▸ h.layered
  rw [hclose]
  refine ⟨⟨?_, ?_, factsSoFar_close.trans h.facts, ?_⟩, ?_⟩
  · change Layered frames _ c.pos
    rw [hpos]
    exact hlayered.close
  · intro f hf
    cases hlayered with
    | within _ _ hnested _ => exact hpos.trans_le (hnested f hf)
  · exact (congrArg (· ++ c.rest) charsSoFar_close).trans h.chars
  · intro node hnode
    obtain rfl : Node.annotated frame.fact c.nodes.reverse = node := by simpa using hnode
    simp [Node.isText]

theorem Grows.leave {size' : Nat} {c' : Cursor Unit Node} (h : Grows cs done ⟨c, frame :: frames⟩)
    (hclosed : Closed c.nodes) (hleave : c.leave Node.emitter size' frame = .ok c') :
    Grows cs done ⟨c', frames⟩ ∧ Closed c'.nodes := by
  have hahead : c.pos ≤ frame.fact.stop := h.ahead frame rfl
  rcases Cursor.advance_cases Node.emitter size' frame.fact.stop c with
    ⟨gap, rest, hrest, hpos, hok⟩ | ⟨-, -, hfail⟩
  · have hstop : c.pos + size gap = frame.fact.stop := by omega
    have hgrows := h.emit hclosed hrest fun f hf => by
      obtain rfl : frame = f := by simpa using hf
      exact hstop.le
    rw [Cursor.leave_eq, hok] at hleave
    obtain rfl := Except.ok.inj hleave
    exact hgrows.close (Cursor.emit_pos.trans hstop)
  · rw [Cursor.leave_eq, hfail] at hleave
    simp [Cursor.fail, Except.map] at hleave

theorem Grows.leaveWhile {size' : Nat} {isOver : Fact → Bool} {w' : Walk Unit Node}
    (h : Grows cs done ⟨c, frames⟩) (hclosed : Closed c.nodes)
    (hleave : leaveWhile Node.emitter size' isOver frames c = .ok w') :
    Grows cs done w' ∧ Closed w'.cursor.nodes ∧
      ∀ frame ∈ w'.opened.head?, ¬ isOver frame.fact := by
  induction frames generalizing c with
  | nil =>
    obtain rfl := Except.ok.inj hleave
    exact ⟨h, hclosed, by simp⟩
  | cons frame outer ih =>
    by_cases hover : isOver frame.fact = true
    · rw [Markup.leaveWhile, if_pos hover] at hleave
      obtain ⟨c', hc, hrest⟩ := ok_of_bind hleave
      obtain ⟨hgrows, hclosed'⟩ := h.leave hclosed hc
      exact ih hgrows hclosed' hrest
    · rw [Markup.leaveWhile, if_neg hover] at hleave
      obtain rfl := Except.ok.inj hleave
      refine ⟨h, hclosed, fun f hf => ?_⟩
      obtain rfl : frame = f := by simpa using hf
      exact hover

theorem Grows.accept {size' : Nat} {fact : Fact} {w w' : Walk Unit Node} (h : Grows cs done w)
    (hclosed : Closed w.cursor.nodes) (hunder : Under w.opened fact.start.toNat)
    (haccept : w.accept Node.emitter size' fact = .ok w') :
    Grows cs (done ++ [fact]) w' ∧ Closed w'.cursor.nodes := by
  unfold Walk.accept at haccept
  split at haccept
  case isTrue => simp [Cursor.fail] at haccept
  case isFalse hin =>
    rcases Cursor.advance_cases Node.emitter size' fact.start.toNat w.cursor with
      ⟨gap, rest, hrest, hpos, hok⟩ | ⟨-, -, hfail⟩
    · have hstart : w.cursor.pos + size gap = fact.start.toNat := by omega
      have hgrows := h.emit hclosed hrest fun f hf => hstart.trans_le (hunder f hf).le
      have hstop : ∀ f ∈ w.opened.head?, fact.stop ≤ f.fact.stop := by
        intro f hf
        have hbound : w.bound size' = f.fact.stop := by
          obtain ⟨outer, houter⟩ := List.head?_eq_some_iff.1 hf
          simp [Walk.bound, houter]
        omega
      have hlayered := hgrows.layered.opening (Cursor.emit_pos.trans hstart) hunder hstop
      split at haccept
      case h_1 => simp [Cursor.fail] at haccept
      case h_2 =>
        rw [hok] at haccept
        obtain rfl := Except.ok.inj haccept
        refine ⟨⟨?_, ?_, ?_, ?_⟩, by simp [Walk.opening, Closed]⟩
        · change Layered _ [] (w.cursor.emit Node.emitter gap rest).pos
          rw [Cursor.emit_pos, hstart]
          exact hlayered
        · intro f hf
          obtain rfl : Frame.mk fact _ = f := by simpa [Walk.opening] using hf
          change (w.cursor.emit Node.emitter gap rest).pos ≤ fact.stop
          rw [Cursor.emit_pos, hstart]
          exact Nat.le_add_right _ _
        · change factsSoFar w.opened _ ++ [fact] = _
          rw [hgrows.facts]
        · change charsSoFar w.opened _ ++ [] ++ _ = cs
          rw [List.append_nil]
          exact hgrows.chars
    · split at haccept
      case h_1 => simp [Cursor.fail] at haccept
      case h_2 => simp [hfail, Cursor.fail, Except.map] at haccept

theorem Grows.enter {size' : Nat} {fact : Fact} {w w' : Walk Unit Node} (h : Grows cs done w)
    (hclosed : Closed w.cursor.nodes) (henter : w.enter Node.emitter size' fact = .ok w') :
    Grows cs (done ++ [fact]) w' ∧ Closed w'.cursor.nodes := by
  rw [Walk.enter_eq] at henter
  obtain ⟨left, hleave, haccept⟩ := ok_of_bind henter
  obtain ⟨hgrows, hclosed', hopen⟩ := h.leaveWhile hclosed hleave
  exact hgrows.accept hclosed' (fun f hf => by simpa using hopen f hf) haccept

theorem Grows.enterAll {size' : Nat} {todo : List Fact} {w w' : Walk Unit Node}
    (h : Grows cs done w) (hclosed : Closed w.cursor.nodes)
    (hwalk : todo.foldlM (Walk.enter Node.emitter size') w = .ok w') :
    Grows cs (done ++ todo) w' ∧ Closed w'.cursor.nodes := by
  induction todo generalizing done w with
  | nil =>
    obtain rfl := Except.ok.inj hwalk
    exact ⟨by simpa using h, hclosed⟩
  | cons fact rest ih =>
    rw [List.foldlM_cons] at hwalk
    obtain ⟨next, henter, hrest⟩ := ok_of_bind hwalk
    obtain ⟨hgrows, hclosed'⟩ := h.enter hclosed henter
    simpa using ih hgrows hclosed' hrest

theorem Grows.finish {w : Walk Unit Node} {nodes : List Node} {state : Unit}
    (h : Grows cs done w) (hclosed : Closed w.cursor.nodes)
    (hfinish : w.finish Node.emitter (size cs) = .ok (nodes, state)) :
    ListPlaced 0 nodes ∧ TextsApart nodes ∧ listFacts nodes = done ∧ listChars nodes = cs := by
  obtain ⟨⟨c, frames⟩, hleave, hend⟩ := ok_of_bind hfinish
  obtain ⟨hgrows, hclosed', hover⟩ := h.leaveWhile hclosed hleave
  obtain rfl : frames = [] := by
    cases frames with
    | nil => rfl
    | cons frame outer => exact absurd rfl (hover frame rfl)
  have hpos : c.pos ≤ size cs := by
    have hlayer := hgrows.layered.layer.upTo
    have hchars := congrArg size hgrows.chars
    simp only [base, charsSoFar, Text.size_append] at hlayer hchars
    omega
  obtain ⟨c', hadvance, hnodes⟩ := ok_of_bind hend
  obtain ⟨rfl, -⟩ := Prod.mk.inj (Except.ok.inj hnodes)
  rcases Cursor.advance_cases Node.emitter (size cs) (size cs) c with
    ⟨gap, rest, hrest, hup, hok⟩ | ⟨-, -, hfail⟩
  · obtain rfl : c.emit Node.emitter gap rest = c' := Except.ok.inj (hok.symm.trans hadvance)
    have hall := hgrows.emit hclosed' hrest (by simp)
    have hchars := hall.chars
    have hlayer := hall.layered.layer
    have hsize := congrArg size hchars
    simp only [charsSoFar, Text.size_append] at hsize
    have hupTo := hlayer.upTo
    simp only [base, Cursor.emit_pos] at hupTo
    have hrest : (c.emit Node.emitter gap rest).rest = [] := Text.size_eq_zero.1 (by omega)
    rw [hrest, List.append_nil] at hchars
    exact ⟨hlayer.placed, hlayer.apart, hall.facts, hchars⟩
  · exact absurd (hfail.symm.trans hadvance) (by simp [Cursor.fail])

/-- The tree of a text and its facts lies over the text. -/
theorem placed_of_renderTree {text : String} {facts : List Fact} {nodes : List Node}
    (h : renderTree text facts = .ok nodes) :
    ListPlaced 0 nodes ∧ TextsApart nodes ∧ listFacts nodes = inOrder facts ∧
      listChars nodes = text.toList := by
  unfold renderTree at h
  split at h
  case h_1 => simp at h
  case h_2 nodes' state hrender =>
    obtain rfl := Except.ok.inj h
    have hstart : Grows text.toList [] ⟨Cursor.start text (), []⟩ :=
      ⟨.outermost ⟨trivial, .nil, rfl, by simp [Cursor.start, listFacts]⟩, by simp, rfl, rfl⟩
    obtain ⟨w, hwalk, hfinish⟩ := ok_of_bind hrender
    obtain ⟨hgrows, hclosed⟩ := hstart.enterAll (by simp [Cursor.start, Closed]) hwalk
    exact hgrows.finish hclosed hfinish

end CrossRef.Markup
