import CrossRef.Markup.Trace
import CrossRef.Proofs.Markup.Html.Item

namespace CrossRef.Markup

open Node (listReplay)

variable {σ ν : Type}

namespace Event

/-- Makes a call on an emitter that has made some nodes before; nothing comes of a call that asks
for a node which is not among them. -/
def play? (e : Emitter σ ν) (made : List ν × σ) : Event → Option (List ν × σ)
  | .text offset content =>
    let (node, s) := e.text offset content made.2
    some (made.1 ++ [node], s)
  | .wrap fact children =>
    (children.mapM fun i => made.1[i]?).map fun inner =>
      let (node, s) := e.wrap fact inner made.2
      (made.1 ++ [node], s)

/-- Makes calls one by one from state `s` on. -/
def playAll? (e : Emitter σ ν) (events : List Event) (s : σ) : Option (List ν × σ) :=
  events.foldlM (play? e) ([], s)

/-- The numbers stand for these nodes among those made so far. -/
def Names (made : List ν) (numbers : List Nat) (nodes : List ν) : Prop :=
  List.Forall₂ (fun i v => made[i]? = some v) numbers nodes

/-- What an emitter has made of the calls logged so far. -/
structure Played (e : Emitter σ ν) (s₀ : σ) (events : Array Event) (made : List ν) (s : σ) :
    Prop where
  calls : playAll? e events.toList s₀ = some (made, s)
  length : made.length = events.size

variable {e : Emitter σ ν} {made : List ν} {numbers : List Nat} {nodes : List ν} {s₀ s s' : σ}
  {events : Array Event}

theorem Played.push {event : Event} {node : ν} (h : Played e s₀ events made s)
    (hplay : event.play? e (made, s) = some (made ++ [node], s')) :
    Played e s₀ (events.push event) (made ++ [node]) s' := by
  obtain ⟨hcalls, hlength⟩ := h
  constructor
  · rw [playAll?] at hcalls
    simp [playAll?, List.foldlM_append, hcalls, hplay]
  · simp [hlength]

theorem Names.snoc (h : Names made numbers nodes) (node : ν) :
    Names (made ++ [node]) numbers nodes := by
  refine h.imp fun i v hi => ?_
  obtain ⟨hlt, -⟩ := List.getElem?_eq_some_iff.1 hi
  rw [List.getElem?_append_left hlt, hi]

theorem Names.newest {i : Nat} (h : Names made numbers nodes) (hi : made.length = i) (node : ν) :
    Names (made ++ [node]) (i :: numbers) (node :: nodes) :=
  .cons (by simp [← hi]) (h.snoc node)

theorem Names.mapM_reverse (h : Names made numbers nodes) :
    (numbers.reverse.mapM fun i => made[i]?) = some nodes.reverse := by
  have hreverse := List.forall₂_reverse_iff.2 h
  generalize numbers.reverse = is at hreverse
  generalize nodes.reverse = vs at hreverse
  induction hreverse with
  | nil => rfl
  | cons hi _ ih => simp [List.mapM_cons, hi, ih]

end Event

open Event (Names Played playAll?)

/-- Frames of one walk whose nodes are named by the frames of another. -/
def FramesNamed (made : List ν) (frames : List (Frame ν)) (frames' : List (Frame Nat)) : Prop :=
  List.Forall₂ (fun f f' => f.fact = f'.fact ∧ Names made f'.before f.before) frames frames'

theorem FramesNamed.map_fact {made : List ν} {frames : List (Frame ν)} {frames' : List (Frame Nat)}
    (h : FramesNamed made frames frames') : frames.map Frame.fact = frames'.map Frame.fact := by
  induction h with
  | nil => rfl
  | cons hframe _ ih => simp [hframe.1, ih]

theorem FramesNamed.snoc {made : List ν} {frames : List (Frame ν)} {frames' : List (Frame Nat)}
    (h : FramesNamed made frames frames') (node : ν) :
    FramesNamed (made ++ [node]) frames frames' :=
  h.imp fun _ _ hframe => ⟨hframe.1, hframe.2.snoc node⟩

/-- A walk comes from making the calls that another one has logged so far. -/
structure Plays (e : Emitter σ ν) (s₀ : σ) (w : Walk σ ν) (t : Walk (Array Event) Nat) : Prop where
  pos : w.cursor.pos = t.cursor.pos
  rest : w.cursor.rest = t.cursor.rest
  nodes : ∃ made, Played e s₀ t.cursor.state made w.cursor.state ∧
    Names made t.cursor.nodes w.cursor.nodes ∧ FramesNamed made w.opened t.opened

theorem plays_start (e : Emitter σ ν) (s : σ) (text : String) :
    Plays e s ⟨.start text s, []⟩ ⟨.start text #[], []⟩ :=
  ⟨rfl, rfl, [], ⟨rfl, rfl⟩, .nil, .nil⟩

theorem simulation_plays (e : Emitter σ ν) (s₀ : σ) : Simulation e Event.emitter (Plays e s₀) where
  cursor h := ⟨h.pos, h.rest⟩
  opened h := by
    obtain ⟨made, -, -, hframes⟩ := h.nodes
    exact hframes.map_fact
  emit := by
    intro c c' frames frames' gap rest h hrest
    by_cases hgap : gap = []
    · subst hgap
      exact h
    obtain ⟨hpos, -, made, hplayed, hnames, hframes⟩ := h
    simp only at hpos
    let out := e.text c.pos (String.ofList gap) c.state
    have hplay : Event.play? e (made, c.state) (.text c'.pos (String.ofList gap)) =
        some (made ++ [out.1], out.2) := by
      rw [← hpos]
      rfl
    rw [Cursor.emit, Cursor.emit, if_neg hgap, if_neg hgap]
    exact ⟨congrArg (· + Text.size gap) hpos, rfl, made ++ [out.1], hplayed.push hplay,
      hnames.newest hplayed.length out.1, hframes.snoc out.1⟩
  close := by
    intro c c' frame frame' frames frames' h
    obtain ⟨hpos, hrest, made, hplayed, hnames, hframes⟩ := h
    cases hframes with
    | cons hframe houter =>
      let out := e.wrap frame.fact c.nodes.reverse c.state
      have hplay : Event.play? e (made, c.state) (.wrap frame'.fact c'.nodes.reverse) =
          some (made ++ [out.1], out.2) := by
        rw [Event.play?, hnames.mapM_reverse, ← hframe.1]
        rfl
      exact ⟨hpos, hrest, made ++ [out.1], hplayed.push hplay,
        hframe.2.newest hplayed.length out.1, FramesNamed.snoc houter out.1⟩
  opening := by
    intro w w' fact h
    obtain ⟨hpos, hrest, made, hplayed, hnames, hframes⟩ := h
    exact ⟨hpos, hrest, made, hplayed, .nil, .cons ⟨rfl, hnames⟩ hframes⟩

/-- What an emitter makes of the logged calls is what a walk makes with it, and a walk that stops
has made no more of them. -/
theorem render_plays (e : Emitter σ ν) (text : String) (facts : List Fact) (s : σ) :
    ∃ made s', playAll? e (renderEvents text facts).2 s = some (made, s') ∧
      match (renderEvents text facts).1 with
      | .ok tops => ∃ nodes, render e text facts s = .ok (nodes, s') ∧
          (tops.mapM fun i => made[i]?) = some nodes
      | .error fault => render e text facts s = .error ⟨fault, s'⟩ := by
  have h := (simulation_plays e s).render (plays_start e s text) facts
  unfold renderEvents
  cases hlog : render Event.emitter text facts #[] with
  | ok out' =>
    rw [hlog] at h
    cases hout : render e text facts s with
    | ok out =>
      rw [hout] at h
      obtain ⟨c, c', ⟨-, -, made, hplayed, hnames, -⟩, rfl, rfl⟩ := h
      exact ⟨made, _, hplayed.calls, _, rfl, hnames.mapM_reverse⟩
    | error stop =>
      rw [hout] at h
      exact h.elim
  | error stop' =>
    rw [hlog] at h
    cases hout : render e text facts s with
    | ok out =>
      rw [hout] at h
      exact h.elim
    | error stop =>
      rw [hout] at h
      obtain ⟨hfault, w, t, ⟨-, -, made, hplayed, -, -⟩, hstate, hstate'⟩ := h
      refine ⟨made, stop.state, ?_, ?_⟩
      · rw [← hstate]
        simp only [← hstate', hplayed.calls]
      · simp only [← hfault]

/-- The log ends with the tree, or with the fault for which there is none. -/
theorem renderEvents_fst (text : String) (facts : List Fact) :
    (renderEvents text facts).1 =
      (renderTree text facts).map fun nodes => (listReplay Event.emitter nodes #[]).1 := by
  have hreplay := render_replay Event.emitter text facts #[]
  unfold renderEvents
  cases htree : renderTree text facts with
  | ok nodes =>
    rw [htree] at hreplay
    simp only [hreplay]
    rfl
  | error fault =>
    rw [htree] at hreplay
    obtain ⟨events, hstop⟩ := hreplay
    simp only [hstop]
    rfl

/-- Every emitter gets the calls that are logged, with the nodes of earlier calls for children.
Where there is a tree, that hands it over from left to right; otherwise the walk stops behind these
calls at the fault for which there is none. The HTML output is such a walk. -/
theorem render_driven (e : Emitter σ ν) (text : String) (facts : List Fact) (s : σ) :
    (∃ made s', playAll? e (renderEvents text facts).2 s = some (made, s') ∧
      match renderTree text facts with
      | .ok nodes => render e text facts s = .ok (listReplay e nodes s) ∧
          s' = (listReplay e nodes s).2 ∧ ∃ tops, (renderEvents text facts).1 = .ok tops ∧
            (tops.mapM fun i => made[i]?) = some (listReplay e nodes s).1
      | .error fault => render e text facts s = .error ⟨fault, s'⟩ ∧
          (renderEvents text facts).1 = .error fault) ∧
    ∀ link, Html.render link text facts = (renderTree text facts).map fun nodes =>
      let (parts, last) := listReplay (Html.emitter link) nodes .first
      (Html.finish (String.join parts) last).1 := by
  refine ⟨?_, fun link => Html.render_eq_replay link text facts⟩
  obtain ⟨made, s', hplay, hwalk⟩ := render_plays e text facts s
  refine ⟨made, s', hplay, ?_⟩
  rw [renderEvents_fst] at hwalk ⊢
  have hreplay := render_replay e text facts s
  cases htree : renderTree text facts with
  | ok nodes =>
    rw [htree] at hreplay hwalk
    obtain ⟨out, hout, htops⟩ := hwalk
    have hsame : (out, s') = listReplay e nodes s := Except.ok.inj (hout.symm.trans hreplay)
    refine ⟨hreplay, congrArg Prod.snd hsame, _, rfl, ?_⟩
    rw [htops, ← hsame]
  | error fault =>
    rw [htree] at hwalk
    exact ⟨hwalk, rfl⟩

end CrossRef.Markup
