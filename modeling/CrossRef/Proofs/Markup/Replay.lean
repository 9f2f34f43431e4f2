import CrossRef.Proofs.Markup.Forest
import CrossRef.Proofs.Markup.Simulation

namespace CrossRef.Markup

variable {σ ν : Type}

mutual

/-- Hands the nodes of a tree to an emitter, a fact behind the nodes it encloses. -/
def Node.replay (e : Emitter σ ν) : Node → σ → ν × σ
  | .text start content, s => e.text start content s
  | .annotated fact children, s =>
    let (inner, s) := Node.listReplay e children s
    e.wrap fact inner s

def Node.listReplay (e : Emitter σ ν) : List Node → σ → List ν × σ
  | [], s => ([], s)
  | node :: rest, s =>
    let (v, s) := node.replay e s
    let (vs, s) := Node.listReplay e rest s
    (v :: vs, s)

end

open Node (listReplay)

variable {e : Emitter σ ν} {s₀ s s' : σ}

theorem Node.listReplay_append {as bs : List Node} {vs us : List ν} {s'' : σ}
    (ha : listReplay e as s = (vs, s')) (hb : listReplay e bs s' = (us, s'')) :
    listReplay e (as ++ bs) s = (vs ++ us, s'') := by
  induction as generalizing s vs with
  | nil =>
    obtain ⟨rfl, rfl⟩ := Prod.mk.inj ha
    exact hb
  | cons node rest ih =>
    obtain ⟨rfl, hstate⟩ := Prod.mk.inj ha
    simp only [List.cons_append, listReplay, ih (Prod.ext rfl hstate)]

/-- Emitters whose nodes correspond make corresponding nodes of one tree. -/
theorem Node.listReplay_map {ν' : Type} {e' : Emitter σ ν'} (f : ν → ν')
    (htext : ∀ start content s, e'.text start content s = (e.text start content s).map f id)
    (hwrap : ∀ fact vs s, e'.wrap fact (vs.map f) s = (e.wrap fact vs s).map f id)
    (nodes : List Node) (s : σ) :
    listReplay e' nodes s = (listReplay e nodes s).map (List.map f) id := by
  induction nodes using Node.forest_induction generalizing s with
  | nil => rfl
  | text start content rest ih =>
    simp only [listReplay, Node.replay, htext, ih, Prod.map_fst, Prod.map_snd, id_eq]
    rfl
  | annotated fact children rest ih ih' =>
    simp only [listReplay, Node.replay, ih, Prod.map_fst, Prod.map_snd, id_eq, hwrap, ih']
    rfl

/-- The frames of a walk come from handing over the nodes in them, the outermost first. -/
inductive FramesReplay (e : Emitter σ ν) (s₀ : σ) : List (Frame ν) → List (Frame Node) → σ → Prop
  | nil : FramesReplay e s₀ [] [] s₀
  | cons {fact : Fact} {before : List ν} {before' : List Node} {outer : List (Frame ν)}
      {outer' : List (Frame Node)} {s s' : σ} : FramesReplay e s₀ outer outer' s →
      listReplay e before'.reverse s = (before.reverse, s') →
      FramesReplay e s₀ (⟨fact, before⟩ :: outer) (⟨fact, before'⟩ :: outer') s'

/-- A walk comes from handing over the tree that another one has built so far. -/
structure Replays (e : Emitter σ ν) (s₀ : σ) (w : Walk σ ν) (t : Walk Unit Node) : Prop where
  pos : w.cursor.pos = t.cursor.pos
  rest : w.cursor.rest = t.cursor.rest
  frames : ∃ s, FramesReplay e s₀ w.opened t.opened s ∧
    listReplay e t.cursor.nodes.reverse s = (w.cursor.nodes.reverse, w.cursor.state)

theorem FramesReplay.map_fact {frames : List (Frame ν)} {frames' : List (Frame Node)}
    (h : FramesReplay e s₀ frames frames' s) : frames.map Frame.fact = frames'.map Frame.fact := by
  induction h with
  | nil => rfl
  | cons _ _ ih => simp [ih]

theorem replays_start (e : Emitter σ ν) (s : σ) (text : String) :
    Replays e s ⟨.start text s, []⟩ ⟨.start text (), []⟩ :=
  ⟨rfl, rfl, s, .nil, rfl⟩

theorem simulation_replays (e : Emitter σ ν) (s₀ : σ) :
    Simulation e Node.emitter (Replays e s₀) where
  cursor h := ⟨h.pos, h.rest⟩
  opened h := by
    obtain ⟨s, hframes, -⟩ := h.frames
    exact hframes.map_fact
  emit := by
    intro c c' frames frames' gap rest h hrest
    by_cases hgap : gap = []
    · subst hgap
      exact h
    obtain ⟨hpos, -, s, hframes, hnodes⟩ := h
    simp only at hpos
    rw [Cursor.emit, Cursor.emit, if_neg hgap, if_neg hgap]
    refine ⟨congrArg (· + Text.size gap) hpos, rfl, s, hframes, ?_⟩
    rw [List.reverse_cons, List.reverse_cons]
    refine Node.listReplay_append hnodes ?_
    rw [hpos]
    rfl
  close := by
    intro c c' frame frame' frames frames' h
    obtain ⟨hpos, hrest, s, hframes, hnodes⟩ := h
    cases hframes with
    | cons houter hbefore =>
      refine ⟨hpos, hrest, _, houter, ?_⟩
      simp only [Cursor.close, List.reverse_cons]
      refine Node.listReplay_append hbefore ?_
      simp only [Node.emitter, listReplay, Node.replay, hnodes]
  opening := by
    intro w w' fact h
    obtain ⟨hpos, hrest, s, hframes, hnodes⟩ := h
    exact ⟨hpos, hrest, _, .cons hframes hnodes, rfl⟩

/-- An emitter gets the tree, or stops at the fault for which there is none. -/
theorem render_replay (e : Emitter σ ν) (text : String) (facts : List Fact) (s : σ) :
    match renderTree text facts with
    | .ok nodes => render e text facts s = .ok (listReplay e nodes s)
    | .error fault => ∃ s', render e text facts s = .error ⟨fault, s'⟩ := by
  have h := (simulation_replays e s).render (replays_start e s text) facts
  unfold renderTree
  cases htree : render Node.emitter text facts () with
  | ok out' =>
    rw [htree] at h
    cases hout : render e text facts s with
    | ok out =>
      rw [hout] at h
      obtain ⟨c, c', ⟨-, -, s', hframes, hnodes⟩, rfl, rfl⟩ := h
      cases hframes
      simp only
      rw [hnodes]
    | error stop =>
      rw [hout] at h
      exact h.elim
  | error stop' =>
    rw [htree] at h
    cases hout : render e text facts s with
    | ok out =>
      rw [hout] at h
      exact h.elim
    | error stop =>
      rw [hout] at h
      exact ⟨stop.state, by rw [← h.1]⟩

end CrossRef.Markup
