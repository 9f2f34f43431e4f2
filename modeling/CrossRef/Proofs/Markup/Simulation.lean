import CrossRef.Proofs.Markup.Moves

namespace CrossRef.Markup

variable {σ σ' ν ν' α β α' β' : Type}

/-- Both computations succeed with related results, or both stop with one fault. -/
def Agree (S : σ → σ' → Prop) (Q : α → β → Prop) :
    Except (Stop σ) α → Except (Stop σ') β → Prop
  | .ok a, .ok b => Q a b
  | .error stop, .error stop' => stop.fault = stop'.fault ∧ S stop.state stop'.state
  | _, _ => False

variable {S : σ → σ' → Prop} {Q : α → β → Prop} {P : α' → β' → Prop}
  {x : Except (Stop σ) α} {y : Except (Stop σ') β}

theorem Agree.bind {f : α → Except (Stop σ) α'} {g : β → Except (Stop σ') β'}
    (h : Agree S Q x y) (hnext : ∀ a b, Q a b → Agree S P (f a) (g b)) :
    Agree S P (x >>= f) (y >>= g) := by
  cases x with
  | ok a =>
    cases y with
    | ok b => exact hnext a b h
    | error stop => exact h.elim
  | error stop =>
    cases y with
    | ok b => exact h.elim
    | error stop' => exact h

theorem Agree.map {f : α → α'} {g : β → β'} (h : Agree S Q x y)
    (hmap : ∀ a b, Q a b → P (f a) (g b)) : Agree S P (x.map f) (y.map g) := by
  cases x with
  | ok a =>
    cases y with
    | ok b => exact hmap a b h
    | error stop => exact h.elim
  | error stop =>
    cases y with
    | ok b => exact h.elim
    | error stop' => exact h

/-- A relation between the walks of two emitters that every move keeps. -/
structure Simulation (e : Emitter σ ν) (e' : Emitter σ' ν') (R : Walk σ ν → Walk σ' ν' → Prop) :
    Prop where
  cursor : ∀ {w w'}, R w w' → w.cursor.pos = w'.cursor.pos ∧ w.cursor.rest = w'.cursor.rest
  opened : ∀ {w w'}, R w w' → w.opened.map Frame.fact = w'.opened.map Frame.fact
  emit : ∀ {c c' frames frames' gap rest}, R ⟨c, frames⟩ ⟨c', frames'⟩ → c.rest = gap ++ rest →
    R ⟨c.emit e gap rest, frames⟩ ⟨c'.emit e' gap rest, frames'⟩
  close : ∀ {c c' frame frame' frames frames'}, R ⟨c, frame :: frames⟩ ⟨c', frame' :: frames'⟩ →
    R ⟨c.close e frame, frames⟩ ⟨c'.close e' frame', frames'⟩
  opening : ∀ {w w'} (fact : Fact), R w w' → R (w.opening fact) (w'.opening fact)

/-- The states of two walks in step. -/
def StatesOf (R : Walk σ ν → Walk σ' ν' → Prop) (s : σ) (s' : σ') : Prop :=
  ∃ w w', R w w' ∧ w.cursor.state = s ∧ w'.cursor.state = s'

namespace Simulation

variable {e : Emitter σ ν} {e' : Emitter σ' ν'} {R : Walk σ ν → Walk σ' ν' → Prop}
  {w : Walk σ ν} {w' : Walk σ' ν'} {c : Cursor σ ν} {c' : Cursor σ' ν'} {frames : List (Frame ν)}
  {frames' : List (Frame ν')}

theorem fail (hr : R w w') (fault : Fault) {Q : α → β → Prop} :
    Agree (StatesOf R) Q (w.cursor.fail fault) (w'.cursor.fail fault) :=
  ⟨rfl, w, w', hr, rfl, rfl⟩

variable (h : Simulation e e' R)

include h

theorem bound_eq (hr : R w w') (size : Nat) : w.bound size = w'.bound size := by
  have hopened := h.opened hr
  unfold Walk.bound
  cases hw : w.opened with
  | nil =>
    cases hw' : w'.opened with
    | nil => rfl
    | cons frame' outer' => simp [hw, hw'] at hopened
  | cons frame outer =>
    cases hw' : w'.opened with
    | nil => simp [hw, hw'] at hopened
    | cons frame' outer' =>
      simp only [hw, hw', List.map_cons, List.cons.injEq] at hopened
      simp only [hopened.1]

theorem advance (hr : R ⟨c, frames⟩ ⟨c', frames'⟩) (size bound : Nat) :
    Agree (StatesOf R) (fun c c' => R ⟨c, frames⟩ ⟨c', frames'⟩) (c.advance e size bound)
      (c'.advance e' size bound) := by
  obtain ⟨hpos, hrest⟩ := h.cursor hr
  simp only at hpos hrest
  rcases Cursor.advance_cases e size bound c with ⟨gap, rest, hgap, hsize, hok⟩ | ⟨hlt, hno, hfail⟩
  · rw [hok, Cursor.advance_eq (e := e') (c := c') (hrest ▸ hgap) (hpos ▸ hsize)]
    exact h.emit hr hgap
  · rcases Cursor.advance_cases e' size bound c' with ⟨gap, rest, hgap, hsize, -⟩ | ⟨-, -, hfail'⟩
    · refine absurd ⟨gap, rest, hrest.trans hgap, ?_⟩ hno
      omega
    · rw [hfail, hfail']
      exact fail hr _

theorem leave {frame : Frame ν} {frame' : Frame ν'}
    (hr : R ⟨c, frame :: frames⟩ ⟨c', frame' :: frames'⟩) (size : Nat) :
    Agree (StatesOf R) (fun c c' => R ⟨c, frames⟩ ⟨c', frames'⟩) (c.leave e size frame)
      (c'.leave e' size frame') := by
  have hfact : frame.fact = frame'.fact := by simpa using (List.cons.inj (h.opened hr)).1
  rw [Cursor.leave_eq, Cursor.leave_eq, hfact]
  exact (h.advance hr size _).map fun _ _ hr => h.close hr

theorem leaveWhile (hr : R ⟨c, frames⟩ ⟨c', frames'⟩) (size : Nat) (isOver : Fact → Bool) :
    Agree (StatesOf R) (fun w w' => R w w' ∧ ∀ frame ∈ w.opened.head?, ¬ isOver frame.fact)
      (Markup.leaveWhile e size isOver frames c) (Markup.leaveWhile e' size isOver frames' c') := by
  induction frames generalizing c c' frames' with
  | nil =>
    obtain rfl : frames' = [] := by simpa using (h.opened hr).symm
    exact ⟨hr, by simp⟩
  | cons frame outer ih =>
    cases frames' with
    | nil => simpa using h.opened hr
    | cons frame' outer' =>
      have hfact : frame.fact = frame'.fact := by simpa using (List.cons.inj (h.opened hr)).1
      by_cases hover : isOver frame.fact = true
      · rw [Markup.leaveWhile, Markup.leaveWhile, if_pos hover, if_pos (hfact ▸ hover)]
        exact (h.leave hr size).bind fun _ _ hr => ih hr
      · rw [Markup.leaveWhile, Markup.leaveWhile, if_neg hover, if_neg (hfact ▸ hover)]
        refine ⟨hr, fun f hf => ?_⟩
        obtain rfl : frame = f := by simpa using hf
        exact hover

theorem accept (hr : R w w') (size : Nat) (fact : Fact) :
    Agree (StatesOf R) R (w.accept e size fact) (w'.accept e' size fact) := by
  obtain ⟨hpos, hrest⟩ := h.cursor hr
  have hmisplaced : w.cursor.misplaced? size fact = w'.cursor.misplaced? size fact := by
    rw [Cursor.misplaced?, Cursor.misplaced?, hpos, hrest]
  unfold Walk.accept
  rw [h.bound_eq hr, hpos, hmisplaced]
  split
  · exact fail hr _
  · split
    · exact fail hr _
    · exact (h.advance hr size _).map fun _ _ hr => h.opening fact hr

theorem enter (hr : R w w') (size : Nat) (fact : Fact) :
    Agree (StatesOf R) R (w.enter e size fact) (w'.enter e' size fact) := by
  rw [Walk.enter_eq, Walk.enter_eq]
  exact (h.leaveWhile hr size _).bind fun _ _ hr => h.accept hr.1 size fact

theorem enterAll (hr : R w w') (size : Nat) (facts : List Fact) :
    Agree (StatesOf R) R (facts.foldlM (Walk.enter e size) w)
      (facts.foldlM (Walk.enter e' size) w') := by
  induction facts generalizing w w' with
  | nil => exact hr
  | cons fact rest ih =>
    rw [List.foldlM_cons, List.foldlM_cons]
    exact (h.enter hr size fact).bind fun _ _ hr => ih hr

/-- Two walks that begin in step end in step, at the end of the text or at one fault. -/
theorem render {text : String} {s : σ} {s' : σ'}
    (hr : R ⟨.start text s, []⟩ ⟨.start text s', []⟩) (facts : List Fact) :
    Agree (StatesOf R)
      (fun out out' => ∃ c c', R ⟨c, []⟩ ⟨c', []⟩ ∧ out = (c.nodes.reverse, c.state) ∧
        out' = (c'.nodes.reverse, c'.state))
      (Markup.render e text facts s) (Markup.render e' text facts s') := by
  unfold Markup.render
  refine (h.enterAll hr _ _).bind fun w w' hr => ?_
  refine (h.leaveWhile hr _ _).bind fun w w' ⟨hr, hover⟩ => ?_
  obtain ⟨c, frames⟩ := w
  obtain ⟨c', frames'⟩ := w'
  obtain rfl : frames = [] := by
    cases frames with
    | nil => rfl
    | cons frame outer => exact absurd rfl (hover frame rfl)
  obtain rfl : frames' = [] := by simpa using (h.opened hr).symm
  exact (h.advance hr _ _).bind fun c c' hr => ⟨c, c', hr, rfl, rfl⟩

end Simulation

end CrossRef.Markup
