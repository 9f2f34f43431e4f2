import CrossRef.Markup.Tree
import CrossRef.Proofs.Markup.Nesting

namespace CrossRef

namespace Text

variable {cs part : List Char} {start stop : Nat}

/-- The part of a text between two offsets. -/
def slice? (cs : List Char) (start stop : Nat) : Option (List Char) :=
  (splitAt? stop cs).bind fun (front, _) => (splitAt? start front).map Prod.snd

theorem slice?_eq_some_iff : slice? cs start stop = some part ↔
    ∃ before behind, cs = before ++ part ++ behind ∧ size before = start ∧
      size (before ++ part) = stop := by
  simp only [slice?, Option.bind_eq_some_iff, Option.map_eq_some_iff, Prod.exists,
    splitAt?_eq_some_iff]
  constructor
  · rintro ⟨front, behind, ⟨rfl, rfl⟩, before, part, ⟨rfl, rfl⟩, rfl⟩
    exact ⟨before, behind, rfl, rfl, rfl⟩
  · rintro ⟨before, behind, rfl, rfl, rfl⟩
    exact ⟨before ++ part, behind, ⟨rfl, rfl⟩, before, part, ⟨rfl, rfl⟩, rfl⟩

/-- A part can be cut out just where both offsets lie between characters, in this order. -/
theorem isSome_slice? : (slice? cs start stop).isSome ↔
    start ≤ stop ∧ IsBoundary cs start ∧ IsBoundary cs stop := by
  rw [Option.isSome_iff_exists]
  simp only [slice?_eq_some_iff]
  constructor
  · rintro ⟨part, before, behind, rfl, rfl, rfl⟩
    refine ⟨by simp, ⟨before, part ++ behind, by simp, rfl⟩, ⟨before ++ part, behind, rfl, rfl⟩⟩
  · rintro ⟨hle, ⟨before, rest, rfl, rfl⟩, hstop⟩
    obtain ⟨part, behind, rfl, hpart⟩ := (isBoundary_append hle).1 hstop
    exact ⟨part, before, behind, by simp, rfl, by rw [size_append]; omega⟩

end Text

namespace Markup

variable {σ ν : Type}

/-- How the recursion ends early: with a fault that it reports, or where something does not hold
that it relies on. -/
inductive Halt (σ : Type)
  | fault (stop : Stop σ)
  | slice (start stop bound : Nat)
  | behind (fact : Fact) (pos : Nat)
  | leftover (facts : List Fact)

/-- What a range leaves: the facts from its end on, at most `n`, and its nodes, newest first. -/
structure Level (σ ν : Type) (n : Nat) where
  rest : List Fact
  nodes : List ν
  state : σ
  length_le : rest.length ≤ n

namespace Level

def leaving (facts : List Fact) (out : List ν × σ) : Level σ ν facts.length :=
  ⟨facts, out.1, out.2, Nat.le_refl _⟩

def widen {m n : Nat} (h : m ≤ n) (level : Level σ ν m) : Level σ ν n :=
  { level with length_le := level.length_le.trans h }

end Level

section Recursion

variable (e : Emitter σ ν) (cs : List Char)

/-- The text from `pos` to `stop` as a node, if there is any, in a range that ends at `bound`. -/
def gap (pos stop bound : Nat) (nodes : List ν) (state : σ) : Except (Halt σ) (List ν × σ) :=
  if pos < stop then
    match Text.slice? cs pos stop with
    | some part =>
      if stop ≤ bound ∧ bound ≤ Text.size cs then
        let (node, state) := e.text pos (String.ofList part) state
        .ok (node :: nodes, state)
      else .error (.slice pos stop bound)
    | none => .error (.slice pos stop bound)
  else .ok (nodes, state)

/-- What speaks against a fact in a range that ends at `bound` and is done up to `pos`. -/
def refusal? (pos bound : Nat) (fact : Fact) (state : σ) : Option (Halt σ) :=
  if bound < fact.stop then
    some (.fault ⟨.brokenNesting fact.start.toNat fact.stop bound, state⟩)
  else if fact.start.toNat < pos then some (.behind fact pos)
  else if ¬ Text.IsBoundary cs fact.start.toNat then
    some (.fault ⟨.invalidOffset fact.start.toNat (Text.size cs), state⟩)
  else if ¬ Text.IsBoundary cs fact.stop then
    some (.fault ⟨.invalidOffset fact.stop (Text.size cs), state⟩)
  else none

/-- Takes the facts that begin between `pos` and `bound`; where the range is the whole text, also
those at its end. -/
def consume (facts : List Fact) (pos bound : Nat) (whole : Bool) (nodes : List ν) (state : σ) :
    Except (Halt σ) (Level σ ν facts.length) :=
  match facts with
  | [] => (gap e cs pos bound bound nodes state).map (Level.leaving [])
  | fact :: rest =>
    if bound < fact.start.toNat ∨ fact.start.toNat = bound ∧ whole = false then
      if whole then .error (.fault ⟨.brokenNesting fact.start.toNat fact.stop bound, state⟩)
      else (gap e cs pos bound bound nodes state).map (Level.leaving (fact :: rest))
    else
      match refusal? cs pos bound fact state with
      | some halt => .error halt
      | none => do
        let before ← gap e cs pos fact.start.toNat bound nodes state
        let inner ← consume rest fact.start.toNat fact.stop false [] before.2
        let wrapped := e.wrap fact inner.nodes.reverse inner.state
        have hless : inner.rest.length < (fact :: rest).length := Nat.lt_succ_of_le inner.length_le
        let level ← consume inner.rest fact.stop bound whole (wrapped.1 :: before.1) wrapped.2
        return level.widen hless.le
termination_by facts.length
decreasing_by
  · exact Nat.lt_succ_self _
  · exact hless

/-- The recursion over a whole text. -/
def descend (text : String) (facts : List Fact) (state : σ) : Except (Halt σ) (List ν × σ) := do
  let size := Text.size text.toList
  let level ← consume e text.toList (inOrder facts) 0 size true [] state
  if level.rest = [] then return (level.nodes.reverse, level.state)
  else .error (.leftover level.rest)

end Recursion

namespace Walk

variable (e : Emitter σ ν) (size : Nat)

/-- The rest of a walk: the facts that are still to be entered, and the end. -/
def complete (w : Walk σ ν) (facts : List Fact) : Except (Stop σ) (List ν × σ) :=
  facts.foldlM (enter e size) w >>= finish e size

/-- The rest of a walk whose cursor has come to the end of the innermost open fact, or of the
text. -/
def completeBehind (opened : List (Frame ν)) (c : Cursor σ ν) (facts : List Fact) :
    Except (Stop σ) (List ν × σ) :=
  match opened with
  | [] => .ok (c.nodes.reverse, c.state)
  | frame :: outer => complete e size ⟨c.close e frame, outer⟩ facts

variable {e size} {w : Walk σ ν} {fact : Fact} {facts : List Fact}

theorem complete_cons : w.complete e size (fact :: facts) =
    w.enter e size fact >>= fun w => w.complete e size facts := by
  rw [complete, List.foldlM_cons, bind_assoc]
  rfl

theorem enter_inside (h : ∀ frame ∈ w.opened.head?, fact.start.toNat < frame.fact.stop) :
    w.enter e size fact = w.accept e size fact := by
  obtain ⟨c, opened⟩ := w
  cases opened with
  | nil => rfl
  | cons frame outer =>
    have hinside : ¬ frame.fact.stop ≤ fact.start.toNat := Nat.not_le.2 (h frame rfl)
    rw [enter_eq, leaveWhile, if_neg (by simpa using hinside)]
    rfl

theorem complete_over {c : Cursor σ ν} (hadvance : w.cursor.advance e size (w.bound size) = .ok c)
    (hover : ∀ f ∈ facts, w.bound size ≤ f.start.toNat) (hlast : w.opened = [] → facts = []) :
    w.complete e size facts = completeBehind e size w.opened c facts := by
  obtain ⟨cursor, opened⟩ := w
  cases opened with
  | nil =>
    obtain rfl := hlast rfl
    have hfinish : finish e size ⟨cursor, []⟩ =
        (cursor.advance e size size >>= fun c => .ok (c.nodes.reverse, c.state)) := rfl
    have hbound : cursor.advance e size size = .ok c := hadvance
    change finish e size ⟨cursor, []⟩ = _
    rw [hfinish, hbound]
    rfl
  | cons frame outer =>
    have hleave : cursor.leave e size frame = .ok (c.close e frame) := by
      have hbound : cursor.advance e size frame.fact.stop = .ok c := hadvance
      rw [Cursor.leave_eq, hbound]
      rfl
    cases facts with
    | nil =>
      change finish e size ⟨cursor, frame :: outer⟩ = finish e size ⟨c.close e frame, outer⟩
      simp only [finish, leaveWhile, if_true, hleave]
      rfl
    | cons fact facts =>
      have hstop : frame.fact.stop ≤ fact.start.toNat := hover fact List.mem_cons_self
      have henter : enter e size ⟨cursor, frame :: outer⟩ fact =
          enter e size ⟨c.close e frame, outer⟩ fact := by
        rw [enter_eq, enter_eq]
        simp only [leaveWhile, decide_eq_true hstop, if_true, hleave]
        rfl
      change complete e size _ _ = complete e size _ _
      rw [complete_cons, complete_cons, henter]

end Walk

section Beside

variable {e : Emitter σ ν} {cs : List Char} {c : Cursor σ ν} {w : Walk σ ν} {fact : Fact}
  {facts : List Fact}

/-- A gap can be cut out just where it lies in its range and between characters. -/
theorem gap_ok_iff {pos stop bound : Nat} (hlt : pos < stop) (nodes : List ν) (state : σ) :
    (∃ out, gap e cs pos stop bound nodes state = .ok out) ↔
      stop ≤ bound ∧ bound ≤ Text.size cs ∧ Text.IsBoundary cs pos ∧ Text.IsBoundary cs stop := by
  have hslice : (Text.slice? cs pos stop).isSome ↔ _ := Text.isSome_slice?
  rw [gap, if_pos hlt]
  cases hpart : Text.slice? cs pos stop with
  | none =>
    rw [hpart] at hslice
    have hno : ¬ (pos ≤ stop ∧ Text.IsBoundary cs pos ∧ Text.IsBoundary cs stop) :=
      fun h => absurd (hslice.2 h) (by simp)
    simp only [reduceCtorEq, exists_false, false_iff]
    exact fun h => hno ⟨hlt.le, h.2.2⟩
  | some part =>
    rw [hpart] at hslice
    have hends := (hslice.1 rfl).2
    by_cases hwithin : stop ≤ bound ∧ bound ≤ Text.size cs
    · simp only [if_pos hwithin]
      exact ⟨fun _ => ⟨hwithin.1, hwithin.2, hends⟩, fun _ => ⟨_, rfl⟩⟩
    · simp only [if_neg hwithin, reduceCtorEq, exists_false, false_iff]
      exact fun h => hwithin ⟨h.1, h.2.1⟩

theorem Cursor.StandsIn.gap (h : c.StandsIn cs) (e : Emitter σ ν) {stop bound : Nat}
    (hstop : Text.IsBoundary cs stop) (hle : c.pos ≤ stop) (hbound : stop ≤ bound)
    (hsize : bound ≤ Text.size cs) :
    ∃ c', c.advance e (Text.size cs) stop = .ok c' ∧ c'.StandsIn cs ∧ c'.pos = stop ∧
      Markup.gap e cs c.pos stop bound c.nodes c.state = .ok (c'.nodes, c'.state) := by
  rcases Cursor.advance_cases e (Text.size cs) stop c with
    ⟨gap, rest, hrest, hpos, hok⟩ | ⟨-, hno, -⟩
  · refine ⟨_, hok, h.emit hrest e, by rw [emit_pos]; omega, ?_⟩
    unfold Markup.gap
    by_cases hlt : c.pos < stop
    · have hpart : Text.slice? cs c.pos stop = some gap := by
        obtain ⟨before, hcs, hbefore⟩ := h
        refine Text.slice?_eq_some_iff.2 ⟨before, rest, ?_, hbefore, ?_⟩
        · rw [hcs, hrest, List.append_assoc]
        · rw [Text.size_append]
          omega
      have hne : gap ≠ [] := by
        intro hnil
        rw [hnil, Text.size_nil] at hpos
        omega
      rw [if_pos hlt, hpart, Cursor.emit, if_neg hne]
      simp only [hbound, hsize, and_self, if_true]
    · obtain rfl : gap = [] := Text.size_eq_zero.1 (by omega)
      rw [if_neg hlt, Cursor.emit, if_pos rfl]
  · exact absurd ((h.isBoundary_iff hle).1 hstop) hno

/-- A walk that stands in a range which ends with its innermost open fact, or with the text, with
the facts that are still to be entered. -/
structure Walk.InRange (cs : List Char) (facts : List Fact) (w : Walk σ ν) : Prop where
  cut : w.cursor.StandsIn cs
  sorted : facts.Pairwise fun f g => f.start ≤ g.start
  ahead : ∀ f ∈ facts, w.cursor.pos ≤ f.start.toNat
  reach : w.cursor.pos ≤ w.bound (Text.size cs)
  within : w.bound (Text.size cs) ≤ Text.size cs
  boundary : Text.IsBoundary cs (w.bound (Text.size cs))

/-- A range that is done: `c` is where the walk comes to at its end. -/
structure Passes (e : Emitter σ ν) (cs : List Char) (facts : List Fact) (w : Walk σ ν) {n : Nat}
    (level : Level σ ν n) (c : Cursor σ ν) : Prop where
  cut : c.StandsIn cs
  pos : c.pos = w.bound (Text.size cs)
  nodes : c.nodes = level.nodes
  state : c.state = level.state
  later : level.rest <:+ facts
  beyond : ∀ f ∈ level.rest, w.bound (Text.size cs) ≤ f.start.toNat
  last : w.opened = [] → level.rest = []
  complete : w.complete e (Text.size cs) facts =
    Walk.completeBehind e (Text.size cs) w.opened c level.rest

/-- What the recursion makes of a range: it stops as the walk does, or passes on to where the walk
does. -/
inductive Mirrors (e : Emitter σ ν) (cs : List Char) (facts : List Fact) (w : Walk σ ν) {n : Nat} :
    Except (Halt σ) (Level σ ν n) → Prop
  | stops (stop : Stop σ) : w.complete e (Text.size cs) facts = .error stop →
      Mirrors e cs facts w (.error (.fault stop))
  | passes (level : Level σ ν n) (c : Cursor σ ν) : Passes e cs facts w level c →
      Mirrors e cs facts w (.ok level)

/-- The recursion on the range that a walk stands in. -/
def Walk.consume (e : Emitter σ ν) (cs : List Char) (facts : List Fact) (w : Walk σ ν) :
    Except (Halt σ) (Level σ ν facts.length) :=
  Markup.consume e cs facts w.cursor.pos (w.bound (Text.size cs)) w.opened.isEmpty w.cursor.nodes
    w.cursor.state

namespace Walk.InRange

theorem mirrors_over (h : w.InRange cs facts)
    (hover : ∀ f ∈ facts, w.bound (Text.size cs) ≤ f.start.toNat)
    (hlast : w.opened = [] → facts = []) :
    Mirrors e cs facts w ((gap e cs w.cursor.pos (w.bound (Text.size cs)) (w.bound (Text.size cs))
      w.cursor.nodes w.cursor.state).map (Level.leaving facts)) := by
  obtain ⟨c, hadvance, hcut, hpos, hgap⟩ :=
    h.cut.gap e h.boundary h.reach (Nat.le_refl _) h.within
  rw [hgap]
  exact .passes _ c {
    cut := hcut
    pos := hpos
    nodes := rfl
    state := rfl
    later := List.suffix_rfl
    beyond := hover
    last := hlast
    complete := Walk.complete_over hadvance hover hlast }

/-- What the recursion finds wrong with a fact is what the walk finds wrong. -/
theorem accept_eq (h : w.InRange cs (fact :: facts)) (e : Emitter σ ν) :
    match refusal? cs w.cursor.pos (w.bound (Text.size cs)) fact w.cursor.state with
    | some halt => ∃ stop, halt = .fault stop ∧ w.accept e (Text.size cs) fact = .error stop
    | none => fact.stop ≤ w.bound (Text.size cs) ∧ Text.IsBoundary cs fact.start.toNat ∧
        Text.IsBoundary cs fact.stop ∧ w.accept e (Text.size cs) fact =
          (w.cursor.advance e (Text.size cs) fact.start.toNat).map fun c =>
            opening fact { w with cursor := c } := by
  have hahead : w.cursor.pos ≤ fact.start.toNat := h.ahead fact List.mem_cons_self
  have hle : fact.start.toNat ≤ fact.stop := Nat.le_add_right _ _
  have hbehind : ¬ fact.start.toNat < w.cursor.pos := Nat.not_lt.2 hahead
  have hmisplaced : w.cursor.misplaced? (Text.size cs) fact = _ := Cursor.misplaced?_eq hahead
  simp only [← h.cut.isBoundary_iff hahead, ← h.cut.isBoundary_iff (hahead.trans hle)]
    at hmisplaced
  unfold refusal? accept
  by_cases hbound : w.bound (Text.size cs) < fact.stop
  · rw [if_pos hbound, if_pos (.inl hbound)]
    exact ⟨_, rfl, rfl⟩
  rw [if_neg hbound, if_neg hbehind, if_neg (not_or.2 ⟨hbound, hbehind⟩), hmisplaced]
  by_cases hstart : Text.IsBoundary cs fact.start.toNat
  · by_cases hstop : Text.IsBoundary cs fact.stop
    · simp only [hstart, hstop, not_true_eq_false, if_false, true_and]
      exact ⟨Nat.le_of_not_lt hbound, trivial⟩
    · simp only [hstart, hstop, not_true_eq_false, not_false_eq_true, if_false, if_true]
      exact ⟨_, rfl, rfl⟩
  · simp only [hstart, not_false_eq_true, if_true]
    exact ⟨_, rfl, rfl⟩

theorem opening (h : w.InRange cs (fact :: facts)) (hbound : fact.stop ≤ w.bound (Text.size cs))
    (hstop : Text.IsBoundary cs fact.stop) (hcut : c.StandsIn cs) (hpos : c.pos = fact.start.toNat) :
    (Walk.opening fact { w with cursor := c }).InRange cs facts where
  cut := hcut
  sorted := (List.pairwise_cons.1 h.sorted).2
  ahead := by
    intro f hf
    have hlater := (List.pairwise_cons.1 h.sorted).1 f hf
    exact hpos.trans_le (UInt32.le_iff_toNat_le.1 hlater)
  reach := hpos.trans_le (Nat.le_add_right _ _)
  within := hbound.trans h.within
  boundary := hstop

theorem closed (h : w.InRange cs (fact :: facts)) (hbound : fact.stop ≤ w.bound (Text.size cs))
    {frame : Frame ν} {rest : List Fact} (hcut : c.StandsIn cs) (hpos : c.pos = fact.stop)
    (hrest : rest <:+ facts) (hover : ∀ f ∈ rest, fact.stop ≤ f.start.toNat) :
    (⟨c.close e frame, w.opened⟩ : Walk σ ν).InRange cs rest where
  cut := hcut
  sorted := ((List.pairwise_cons.1 h.sorted).2).sublist hrest.sublist
  ahead := fun f hf => hpos.trans_le (hover f hf)
  reach := hpos.trans_le hbound
  within := h.within
  boundary := h.boundary

end Walk.InRange

theorem Passes.mirrors_behind {n m : Nat} {level : Level σ ν n} {c' : Cursor σ ν}
    (hinner : Passes e cs facts (Walk.opening fact { w with cursor := c }) level c')
    (hopen : w.complete e (Text.size cs) (fact :: facts) =
      (Walk.opening fact { w with cursor := c }).complete e (Text.size cs) facts)
    {result : Except (Halt σ) (Level σ ν level.rest.length)}
    (houter : Mirrors e cs level.rest ⟨c'.close e ⟨fact, c.nodes⟩, w.opened⟩ result)
    (h : level.rest.length ≤ m) :
    Mirrors e cs (fact :: facts) w (result.map (Level.widen h)) := by
  have hbehind : w.complete e (Text.size cs) (fact :: facts) =
      (⟨c'.close e ⟨fact, c.nodes⟩, w.opened⟩ : Walk σ ν).complete e (Text.size cs) level.rest :=
    hopen.trans hinner.complete
  cases houter with
  | stops stop hfault => exact .stops stop (hbehind.trans hfault)
  | passes level' c'' hpasses =>
    exact .passes _ c'' {
      cut := hpasses.cut
      pos := hpasses.pos
      nodes := hpasses.nodes
      state := hpasses.state
      later := (hpasses.later.trans hinner.later).trans (List.suffix_cons fact facts)
      beyond := hpasses.beyond
      last := hpasses.last
      complete := hbehind.trans hpasses.complete }

namespace Walk.InRange

variable (h : w.InRange cs (fact :: facts))
include h

/-- A fact that begins at the end of the range or behind it. -/
theorem mirrors_behind (hover : w.bound (Text.size cs) < fact.start.toNat ∨
      fact.start.toNat = w.bound (Text.size cs) ∧ w.opened.isEmpty = false) :
    Mirrors e cs (fact :: facts) w (w.consume e cs (fact :: facts)) := by
  rw [Walk.consume, Markup.consume, if_pos hover]
  cases hopened : w.opened with
  | nil =>
    have hbound : w.bound (Text.size cs) < fact.start.toNat := by simpa [hopened] using hover
    have hstop : w.bound (Text.size cs) < fact.stop := Nat.lt_add_right _ hbound
    refine .stops _ ?_
    rw [Walk.complete_cons, Walk.enter_inside (by simp [hopened]), Walk.accept,
      if_pos (.inl hstop)]
    rfl
  | cons frame outer =>
    have hbound : w.bound (Text.size cs) ≤ fact.start.toNat := by omega
    have hlater : ∀ f ∈ fact :: facts, w.bound (Text.size cs) ≤ f.start.toNat := by
      intro f hf
      rcases List.mem_cons.1 hf with rfl | hf
      · exact hbound
      · have hsorted := (List.pairwise_cons.1 h.sorted).1 f hf
        exact hbound.trans (UInt32.le_iff_toNat_le.1 hsorted)
    exact h.mirrors_over hlater fun hnone => by simp [hopened] at hnone

/-- A fact that begins in the range, where the recursion is right about fewer facts. -/
theorem mirrors_inside (hin : ¬ (w.bound (Text.size cs) < fact.start.toNat ∨
      fact.start.toNat = w.bound (Text.size cs) ∧ w.opened.isEmpty = false))
    (ih : ∀ (rest : List Fact) (v : Walk σ ν), rest.length ≤ facts.length → v.InRange cs rest →
      Mirrors e cs rest v (v.consume e cs rest)) :
    Mirrors e cs (fact :: facts) w (w.consume e cs (fact :: facts)) := by
  have hinside : ∀ frame ∈ w.opened.head?, fact.start.toNat < frame.fact.stop := by
    cases hopened : w.opened with
    | nil => simp
    | cons frame outer =>
      have hbound : w.bound (Text.size cs) = frame.fact.stop := by rw [Walk.bound, hopened]
      simp only [hbound, hopened, List.isEmpty_cons, and_true] at hin
      have hlt : fact.start.toNat < frame.fact.stop := by omega
      simpa using hlt
  have hcomplete : w.complete e (Text.size cs) (fact :: facts) =
      w.accept e (Text.size cs) fact >>= fun v => v.complete e (Text.size cs) facts := by
    rw [Walk.complete_cons, Walk.enter_inside hinside]
  have haccept := h.accept_eq e
  rw [Walk.consume, Markup.consume, if_neg hin]
  cases hrefusal : refusal? cs w.cursor.pos (w.bound (Text.size cs)) fact w.cursor.state with
  | some halt =>
    rw [hrefusal] at haccept
    obtain ⟨stop, rfl, haccept⟩ := haccept
    refine .stops stop ?_
    rw [hcomplete, haccept]
    rfl
  | none =>
    rw [hrefusal] at haccept
    obtain ⟨hbound, hstart, hstop, haccept⟩ := haccept
    have hle : fact.start.toNat ≤ fact.stop := Nat.le_add_right _ _
    obtain ⟨c, hadvance, hcut, hpos, hgap⟩ := h.cut.gap e hstart (h.ahead fact List.mem_cons_self)
      (hle.trans hbound) h.within
    have hopen : w.complete e (Text.size cs) (fact :: facts) =
        (Walk.opening fact { w with cursor := c }).complete e (Text.size cs) facts := by
      rw [hcomplete, haccept, hadvance]
      rfl
    have hinner := ih facts _ (Nat.le_refl _) (h.opening hbound hstop hcut hpos)
    have hrange : (Walk.opening fact { w with cursor := c }).consume e cs facts =
        Markup.consume e cs facts fact.start.toNat fact.stop false [] c.state := by
      rw [← hpos]
      rfl
    rw [hrange] at hinner
    simp only [hgap, bind, Except.bind]
    generalize Markup.consume e cs facts fact.start.toNat fact.stop false [] c.state = result
      at hinner
    cases hinner with
    | stops stop hfault => exact .stops stop (hopen.trans hfault)
    | passes level c' hpasses =>
      have hclosed : (⟨c'.close e ⟨fact, c.nodes⟩, w.opened⟩ : Walk σ ν).InRange cs level.rest :=
        h.closed hbound hpasses.cut hpasses.pos hpasses.later hpasses.beyond
      have houter := ih level.rest _ level.length_le hclosed
      have hrange' : (⟨c'.close e ⟨fact, c.nodes⟩, w.opened⟩ : Walk σ ν).consume e cs level.rest =
          Markup.consume e cs level.rest fact.stop (w.bound (Text.size cs)) w.opened.isEmpty
            ((e.wrap fact level.nodes.reverse level.state).1 :: c.nodes)
            (e.wrap fact level.nodes.reverse level.state).2 := by
        rw [← hpasses.nodes, ← hpasses.state]
        exact congrArg (fun pos => Markup.consume e cs level.rest pos _ _ _ _) hpasses.pos
      rw [hrange'] at houter
      exact hpasses.mirrors_behind hopen houter _

end Walk.InRange

/-- Range by range the recursion does what the walk does. -/
theorem consume_mirrors : (facts : List Fact) → (w : Walk σ ν) → w.InRange cs facts →
    Mirrors e cs facts w (w.consume e cs facts)
  | [], w, h => by
    rw [Walk.consume, consume]
    exact h.mirrors_over (by simp) fun _ => rfl
  | fact :: facts, w, h => by
    by_cases hover : w.bound (Text.size cs) < fact.start.toNat ∨
        fact.start.toNat = w.bound (Text.size cs) ∧ w.opened.isEmpty = false
    · exact h.mirrors_behind hover
    · exact h.mirrors_inside hover fun rest v hlength hv => consume_mirrors rest v hv
termination_by facts => facts.length

end Beside

/-- The recursion comes to what the walk comes to, and stops with nothing but its faults: no fact
begins before the place that it has come to, none is left at the end, and every part of the text that
it cuts out lies in its range, the range in the text, and both ends of the part between
characters. -/
theorem descend_eq_render (e : Emitter σ ν) (text : String) (facts : List Fact) (state : σ) :
    descend e text facts state = (render e text facts state).mapError Halt.fault ∧
    (∀ halt, descend e text facts state = .error halt → ∃ stop, halt = .fault stop) ∧
    ∀ pos stop bound nodes s, pos < stop →
      ((∃ out, gap e text.toList pos stop bound nodes s = .ok out) ↔
        stop ≤ bound ∧ bound ≤ Text.size text.toList ∧
          Text.IsBoundary text.toList pos ∧ Text.IsBoundary text.toList stop) := by
  rw [← and_assoc]
  refine ⟨?_, fun pos stop bound nodes s hlt => gap_ok_iff hlt nodes s⟩
  let w : Walk σ ν := ⟨Cursor.start text state, []⟩
  have hstart : w.InRange text.toList (inOrder facts) := {
    cut := ⟨[], rfl, rfl⟩
    sorted := inOrder_sorted facts
    ahead := fun f _ => Nat.zero_le _
    reach := Nat.zero_le _
    within := Nat.le_refl _
    boundary := Text.isBoundary_size }
  have hdescend : descend e text facts state = w.consume e text.toList (inOrder facts) >>=
      fun level => if level.rest = [] then .ok (level.nodes.reverse, level.state)
        else .error (.leftover level.rest) := rfl
  have hrender : render e text facts state =
      w.complete e (Text.size text.toList) (inOrder facts) := rfl
  have hmirrors := consume_mirrors (e := e) _ _ hstart
  rw [hdescend, hrender]
  generalize w.consume e text.toList (inOrder facts) = result at hmirrors
  cases hmirrors with
  | stops stop hfault =>
    rw [hfault]
    exact ⟨rfl, fun halt h => ⟨stop, (Except.error.inj h).symm⟩⟩
  | passes level c hpasses =>
    have hrest : level.rest = [] := hpasses.last rfl
    have hok : w.complete e (Text.size text.toList) (inOrder facts) =
        .ok (level.nodes.reverse, level.state) := by
      rw [← hpasses.nodes, ← hpasses.state]
      exact hpasses.complete
    rw [hok]
    simp [bind, Except.bind, hrest, Except.mapError]

/-- A fact that splits a character. -/
theorem descend_eq_render_split :
    let facts : List Fact := [⟨1, 1, .localVariable "x"⟩]
    ∃ stop, descend Node.emitter "ü" facts () = .error (.fault stop) ∧
      stop.fault = .invalidOffset 1 2 := by
  intro facts
  have hsorted : inOrder facts = facts := List.mergeSort_of_pairwise (by decide)
  have hrender : render Node.emitter "ü" facts () = .error ⟨.invalidOffset 1 2, ()⟩ := by
    unfold render
    rw [hsorted]
    rfl
  obtain ⟨heq, hfaults, -⟩ := descend_eq_render Node.emitter "ü" facts ()
  rw [hrender] at heq
  obtain ⟨stop, hstop⟩ := hfaults _ heq
  obtain rfl := Halt.fault.inj hstop
  exact ⟨_, heq, rfl⟩

end Markup

end CrossRef
