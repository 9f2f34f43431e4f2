import CrossRef.Proofs.Alike
import CrossRef.Proofs.Markup.Moves
import Mathlib.Data.List.MinMax
import Mathlib.Order.Nat

namespace CrossRef.Markup

variable {σ ν : Type}

/-- The text ends inside `fact`, or one of the facts before it does. -/
def BadlyNested (size : Nat) (earlier : List Fact) (fact : Fact) : Prop :=
  size < fact.stop ∨ ∃ f ∈ earlier, fact.start.toNat < f.stop ∧ f.stop < fact.stop

/-- An end of `fact` splits a character. -/
def Misplaced (cs : List Char) (fact : Fact) : Prop :=
  ¬ Text.IsBoundary cs fact.start.toNat ∨ ¬ Text.IsBoundary cs fact.stop

def Fits (cs : List Char) (earlier : List Fact) (fact : Fact) : Prop :=
  ¬ BadlyNested (Text.size cs) earlier fact ∧ ¬ Misplaced cs fact

/-- Every fact of a list fits behind those that stand before it. -/
def AllFit (cs : List Char) (facts : List Fact) : Prop :=
  ∀ earlier fact later, facts = earlier ++ fact :: later → Fits cs earlier fact

/-- The nearest end behind `start`, of an earlier fact or else of the text. -/
def nearestStop (size : Nat) (earlier : List Fact) (start : Nat) : Nat :=
  ((earlier.filter fun f => start < f.stop).map Fact.stop).min?.getD size

instance (size : Nat) (earlier : List Fact) (fact : Fact) :
    Decidable (BadlyNested size earlier fact) :=
  inferInstanceAs (Decidable (_ ∨ _))

instance (cs : List Char) (fact : Fact) : Decidable (Misplaced cs fact) :=
  inferInstanceAs (Decidable (_ ∨ _))

/-- What is wrong with a fact that does not fit. -/
def faultOf (cs : List Char) (earlier : List Fact) (fact : Fact) : Fault :=
  if BadlyNested (Text.size cs) earlier fact then
    .brokenNesting fact.start.toNat fact.stop
      (nearestStop (Text.size cs) earlier fact.start.toNat)
  else if ¬ Text.IsBoundary cs fact.start.toNat then
    .invalidOffset fact.start.toNat (Text.size cs)
  else .invalidOffset fact.stop (Text.size cs)

theorem AllFit.append_left {cs : List Char} {facts more : List Fact}
    (h : AllFit cs (facts ++ more)) : AllFit cs facts := by
  intro earlier fact later hsplit
  exact h earlier fact (later ++ more) (by simp [hsplit])

theorem AllFit.snoc {cs : List Char} {facts : List Fact} {fact : Fact} (h : AllFit cs facts)
    (hfact : Fits cs facts fact) : AllFit cs (facts ++ [fact]) := by
  intro earlier f later hsplit
  rcases List.append_eq_append_iff.1 hsplit with ⟨xs, rfl, hxs⟩ | ⟨xs, rfl, hxs⟩
  · cases xs with
    | nil =>
      obtain ⟨rfl, -⟩ := List.cons.inj hxs
      rwa [List.append_nil]
    | cons x xs => simp at hxs
  · cases xs with
    | nil =>
      obtain ⟨rfl, -⟩ := List.cons.inj hxs
      rwa [List.append_nil] at hfact
    | cons x xs =>
      obtain ⟨rfl, -⟩ := List.cons.inj hxs
      exact h earlier f xs rfl

theorem AllFit.stop_le {cs : List Char} {facts : List Fact} {fact : Fact} (h : AllFit cs facts)
    (hfact : fact ∈ facts) : fact.stop ≤ Text.size cs := by
  obtain ⟨earlier, later, hsplit⟩ := List.append_of_mem hfact
  have hfits := (h earlier fact later hsplit).1
  by_contra hlt
  exact hfits (.inl (by omega))

/-- All facts fit when each lies in the text, between characters, and none ends within a later
one. -/
theorem allFit_iff {cs : List Char} {facts : List Fact} :
    AllFit cs facts ↔
      (∀ f ∈ facts, f.stop ≤ Text.size cs ∧ ¬ Misplaced cs f) ∧
      facts.Pairwise fun f g => ¬ (g.start.toNat < f.stop ∧ f.stop < g.stop) := by
  constructor
  · intro h
    refine ⟨fun f hf => ⟨h.stop_le hf, ?_⟩, List.pairwise_iff_forall_sublist.2 ?_⟩
    · obtain ⟨earlier, later, hsplit⟩ := List.append_of_mem hf
      exact (h earlier f later hsplit).2
    · intro f g hsub hcross
      obtain ⟨before, rest, rfl, hf, hg⟩ := List.cons_sublist_iff.1 hsub
      obtain ⟨between, later, rfl⟩ := List.append_of_mem (List.singleton_sublist.1 hg)
      refine (h (before ++ between) g later (by simp)).1 (.inr ⟨f, ?_, hcross⟩)
      exact List.mem_append_left _ hf
  · rintro ⟨hall, hpair⟩ earlier fact later rfl
    refine ⟨?_, (hall fact (by simp)).2⟩
    rintro (hsize | ⟨f, hf, hcross⟩)
    · have := (hall fact (by simp)).1
      omega
    · exact (List.pairwise_append.1 hpair).2.2 f hf fact List.mem_cons_self hcross

theorem badlyNested_iff {size : Nat} {earlier : List Fact} {fact : Fact}
    (h : ∀ f ∈ earlier, f.stop ≤ size) :
    BadlyNested size earlier fact ↔ nearestStop size earlier fact.start.toNat < fact.stop := by
  unfold BadlyNested nearestStop
  cases hmin : ((earlier.filter fun f => fact.start.toNat < f.stop).map Fact.stop).min? with
  | none =>
    have hnone : ∀ f ∈ earlier, ¬ fact.start.toNat < f.stop := by
      simpa [List.filter_eq_nil_iff] using hmin
    rw [Option.getD_none]
    constructor
    · rintro (hsize | ⟨f, hf, hlt, -⟩)
      · exact hsize
      · exact absurd hlt (hnone f hf)
    · exact .inl
  | some stop =>
    obtain ⟨hmem, hleast⟩ := List.min?_eq_some_iff.1 hmin
    obtain ⟨f, hf, rfl⟩ := List.mem_map.1 hmem
    obtain ⟨hf, hopen⟩ := List.mem_filter.1 hf
    rw [Option.getD_some]
    constructor
    · rintro (hsize | ⟨g, hg, hlt, hstop⟩)
      · exact (h f hf).trans_lt hsize
      · have hg' := hleast g.stop (List.mem_map_of_mem (List.mem_filter.2 ⟨hg, by simpa using hlt⟩))
        exact hg'.trans_lt hstop
    · exact fun hstop => .inr ⟨f, hf, of_decide_eq_true hopen, hstop⟩

/-- Either all facts fit or there is a first one that does not. -/
theorem allFit_or_first (cs : List Char) (facts : List Fact) :
    AllFit cs facts ∨ ∃ earlier fact later, facts = earlier ++ fact :: later ∧
      AllFit cs earlier ∧ ¬ Fits cs earlier fact := by
  induction facts using List.reverseRecOn with
  | nil => exact .inl fun earlier fact later h => by simp at h
  | append_singleton facts fact ih =>
    rcases ih with hall | ⟨earlier, f, later, rfl, hall, hf⟩
    · by_cases hfact : Fits cs facts fact
      · exact .inl (hall.snoc hfact)
      · exact .inr ⟨facts, fact, [], rfl, hall, hfact⟩
    · exact .inr ⟨earlier, f, later ++ [fact], by simp, hall, hf⟩

theorem dropWhile_eq_filter {α : Type} {p : α → Bool} {as : List α}
    (h : as.Pairwise fun a b => p b → p a) : as.dropWhile p = as.filter fun a => !p a := by
  induction as with
  | nil => rfl
  | cons a as ih =>
    obtain ⟨ha, has⟩ := List.pairwise_cons.1 h
    by_cases hp : p a = true
    · rw [List.dropWhile_cons_of_pos hp, List.filter_cons_of_neg (by simp [hp]), ih has]
    · rw [List.dropWhile_cons_of_neg hp, List.filter_eq_self.2]
      intro b hb
      rcases List.mem_cons.1 hb with rfl | hb
      · simp [hp]
      · simpa using fun hpb => hp (ha b hb hpb)

theorem min?_eq_of_perm {as bs : List Nat} (h : as.Perm bs) : as.min? = bs.min? := by
  ext n
  simp only [List.min?_eq_some_iff, h.mem_iff]

namespace Cursor

/-- The cursor has come to the place in the text that it says. -/
def StandsIn (cs : List Char) (c : Cursor σ ν) : Prop :=
  ∃ before, cs = before ++ c.rest ∧ Text.size before = c.pos

variable {cs : List Char} {c : Cursor σ ν} {gap rest : List Char}

theorem StandsIn.isBoundary_iff (h : c.StandsIn cs) {n : Nat} (hn : c.pos ≤ n) :
    Text.IsBoundary cs n ↔ Text.IsBoundary c.rest (n - c.pos) := by
  obtain ⟨before, rfl, hpos⟩ := h
  rw [← hpos, Text.isBoundary_append (by omega)]

theorem StandsIn.emit (h : c.StandsIn cs) (hrest : c.rest = gap ++ rest) (e : Emitter σ ν) :
    (c.emit e gap rest).StandsIn cs := by
  obtain ⟨before, rfl, hpos⟩ := h
  exact ⟨before ++ gap, by simp [emit_rest hrest, hrest], by simp [hpos]⟩

theorem StandsIn.advance (h : c.StandsIn cs) (e : Emitter σ ν) {bound : Nat}
    (hb : Text.IsBoundary cs bound) (hle : c.pos ≤ bound) (size : Nat) :
    ∃ c', c.advance e size bound = .ok c' ∧ c'.StandsIn cs ∧ c'.pos = bound := by
  rcases advance_cases e size bound c with ⟨gap, rest, hrest, hpos, hok⟩ | ⟨-, hno, -⟩
  · exact ⟨_, hok, h.emit hrest e, by rw [emit_pos]; omega⟩
  · exact absurd ((h.isBoundary_iff hle).1 hb) hno

end Cursor

namespace Walk

/-- The cursor has reached the end of no open fact, all of them end between characters, and the
inner ones end no later than the outer ones. -/
structure Steady (cs : List Char) (w : Walk σ ν) : Prop where
  cut : w.cursor.StandsIn cs
  ahead : ∀ frame ∈ w.opened, w.cursor.pos ≤ frame.fact.stop
  boundary : ∀ frame ∈ w.opened, Text.IsBoundary cs frame.fact.stop
  nested : w.opened.Pairwise fun inner outer => inner.fact.stop ≤ outer.fact.stop

/-- A steady walk that has entered the facts `done` and has come as far as `reach`. -/
structure Stands (cs : List Char) (done : List Fact) (reach : Nat) (w : Walk σ ν) : Prop
    extends Steady cs w where
  within : w.cursor.pos ≤ reach
  /-- What ends behind `reach` is still open, the latest innermost. -/
  opened : (w.opened.map Frame.fact).filter (fun f => reach < f.stop) =
    done.reverse.filter fun f => reach < f.stop

variable {cs : List Char} {done : List Fact} {reach : Nat} {w : Walk σ ν} {fact : Fact}

theorem stands_start (text : String) (state : σ) :
    Stands text.toList [] 0 (⟨Cursor.start text state, []⟩ : Walk σ ν) where
  cut := ⟨[], rfl, rfl⟩
  ahead := by simp
  boundary := by simp
  nested := .nil
  within := le_rfl
  opened := rfl

theorem Steady.leaveWhile (h : w.Steady cs) (e : Emitter σ ν) (size : Nat) (isOver : Fact → Bool) :
    ∃ w', leaveWhile e size isOver w.opened w.cursor = .ok w' ∧ w'.Steady cs ∧
      w'.opened = w.opened.dropWhile (fun frame => isOver frame.fact) ∧
      ∀ n, w.cursor.pos ≤ n → (∀ frame ∈ w.opened, isOver frame.fact → frame.fact.stop ≤ n) →
        w'.cursor.pos ≤ n := by
  obtain ⟨c, frames⟩ := w
  induction frames generalizing c with
  | nil => exact ⟨⟨c, []⟩, rfl, h, rfl, fun n hn _ => hn⟩
  | cons frame outer ih =>
    by_cases hover : isOver frame.fact = true
    · obtain ⟨houter, hnested⟩ := List.pairwise_cons.1 h.nested
      obtain ⟨c', hadvance, hcut, hpos⟩ :=
        h.cut.advance e (h.boundary frame List.mem_cons_self) (h.ahead frame List.mem_cons_self) size
      have hleave : c.leave e size frame = .ok (c'.close e frame) := by
        rw [Cursor.leave_eq, hadvance]
        rfl
      have hsteady : Steady cs ⟨c'.close e frame, outer⟩ := {
        cut := hcut
        ahead := fun f hf => hpos.trans_le (houter f hf)
        boundary := fun f hf => h.boundary f (List.mem_cons_of_mem _ hf)
        nested := hnested }
      obtain ⟨w', hok, hw', hopened, hup⟩ := ih _ hsteady
      refine ⟨w', ?_, hw', ?_, ?_⟩
      · simp only [Markup.leaveWhile, if_pos hover, hleave]
        exact hok
      · simpa [List.dropWhile_cons, hover] using hopened
      · intro n _ hn
        apply hup n
        · exact hpos.trans_le (hn frame List.mem_cons_self hover)
        · exact fun f hf => hn f (List.mem_cons_of_mem _ hf)
    · refine ⟨⟨c, frame :: outer⟩, ?_, h, ?_, fun n hn _ => hn⟩
      · simp only [Markup.leaveWhile, if_neg hover]
      · simp [hover]

theorem Stands.leave (h : w.Stands cs done reach) {start : Nat} (hreach : reach ≤ start)
    (e : Emitter σ ν) (size : Nat) :
    ∃ w', leaveWhile e size (fun f => f.stop ≤ start) w.opened w.cursor = .ok w' ∧
      w'.Stands cs done start ∧
      w'.opened.map Frame.fact = done.reverse.filter fun f => start < f.stop := by
  obtain ⟨w', hok, hsteady, hdrop, hup⟩ :=
    h.toSteady.leaveWhile e size fun f => f.stop ≤ start
  have hfilter : w'.opened = w.opened.filter fun frame => start < frame.fact.stop := by
    rw [hdrop, dropWhile_eq_filter]
    · simp only [← decide_not, Nat.not_le]
    · refine h.nested.imp fun hle hover => ?_
      simp only [decide_eq_true_eq] at hover ⊢
      omega
  have hfacts : w'.opened.map Frame.fact = done.reverse.filter fun f => start < f.stop := by
    have hlater : ∀ fs : List Fact, fs.filter (fun f => start < f.stop) =
        (fs.filter fun f => reach < f.stop).filter fun f => start < f.stop := by
      intro fs
      rw [List.filter_filter]
      apply List.filter_congr
      intro f _
      rw [← Bool.decide_and]
      apply decide_eq_decide.2
      omega
    rw [hlater, ← h.opened, ← hlater, List.filter_map, hfilter]
    rfl
  refine ⟨w', hok, ⟨hsteady, ?_, ?_⟩, hfacts⟩
  · exact hup start (h.within.trans hreach) fun frame _ hover => of_decide_eq_true hover
  · rw [hfacts, List.filter_filter]
    simp

theorem Stands.bound_eq (h : w.Stands cs done reach) (size : Nat)
    (hopened : w.opened.map Frame.fact = done.reverse.filter fun f => reach < f.stop) :
    w.bound size = nearestStop size done reach := by
  have hhead : w.bound size = ((w.opened.map fun frame => frame.fact.stop).head?).getD size := by
    unfold bound
    cases w.opened <;> rfl
  have hsorted : (w.opened.map fun frame => frame.fact.stop).Pairwise fun a b => min a b = a :=
    List.pairwise_map.2 (h.nested.imp fun hle => min_eq_left hle)
  have hperm : (w.opened.map fun frame => frame.fact.stop).Perm
      ((done.filter fun f => reach < f.stop).map Fact.stop) := by
    have hmap : (w.opened.map fun frame => frame.fact.stop) =
        (done.reverse.filter fun f => reach < f.stop).map Fact.stop := by
      rw [← hopened, List.map_map]
      rfl
    rw [hmap, List.filter_reverse]
    exact (List.reverse_perm _).map _
  rw [hhead, ← List.min?_eq_head? hsorted, min?_eq_of_perm hperm, nearestStop]

/-- A fact that ends within the innermost open fact, and between characters, is opened. -/
theorem Stands.accept_of_fits (h : w.Stands cs done fact.start.toNat) (e : Emitter σ ν)
    (hbound : fact.stop ≤ w.bound (Text.size cs)) (hplace : ¬ Misplaced cs fact)
    (hlater : ∀ frame ∈ w.opened, fact.start.toNat < frame.fact.stop) :
    ∃ w', w.accept e (Text.size cs) fact = .ok w' ∧
      w'.Stands cs (done ++ [fact]) fact.start.toNat := by
  obtain ⟨hstart, hstop⟩ : Text.IsBoundary cs fact.start.toNat ∧ Text.IsBoundary cs fact.stop := by
    simpa [Misplaced] using hplace
  have hle : fact.start.toNat ≤ fact.stop := Nat.le_add_right _ _
  obtain ⟨c, hadvance, hcut, hpos⟩ := h.cut.advance e hstart h.within (Text.size cs)
  have hsound : w.cursor.misplaced? (Text.size cs) fact = none := by
    rw [Cursor.misplaced?_eq h.within,
      if_neg (not_not_intro ((h.cut.isBoundary_iff h.within).1 hstart)),
      if_neg (not_not_intro ((h.cut.isBoundary_iff (h.within.trans hle)).1 hstop))]
  refine ⟨opening fact { w with cursor := c }, ?_, ?_⟩
  · have hin : ¬ (w.bound (Text.size cs) < fact.stop ∨ fact.start.toNat < w.cursor.pos) := by
      have := h.within
      omega
    simp only [accept, if_neg hin, hsound, hadvance]
    rfl
  have hfirst : ∀ frame ∈ w.opened, fact.stop ≤ frame.fact.stop := by
    intro frame hframe
    cases hopened : w.opened with
    | nil => simp [hopened] at hframe
    | cons inner outer =>
      have hinner : fact.stop ≤ inner.fact.stop := by simpa [bound, hopened] using hbound
      rw [hopened] at hframe
      rcases List.mem_cons.1 hframe with rfl | hframe
      · exact hinner
      · exact hinner.trans ((List.pairwise_cons.1 (hopened ▸ h.nested)).1 frame hframe)
  exact {
    cut := hcut
    ahead := by
      intro frame hframe
      change c.pos ≤ frame.fact.stop
      rw [hpos]
      rcases List.mem_cons.1 hframe with rfl | hframe
      · exact hle
      · exact (hlater frame hframe).le
    boundary := by
      intro frame hframe
      rcases List.mem_cons.1 hframe with rfl | hframe
      · exact hstop
      · exact h.boundary frame hframe
    nested := List.pairwise_cons.2 ⟨hfirst, h.nested⟩
    within := hpos.le
    opened := by
      change (fact :: w.opened.map Frame.fact).filter _ = _
      rw [List.reverse_append, List.reverse_singleton, List.singleton_append,
        List.filter_cons, List.filter_cons, h.opened] }

/-- Any other fact stops the walk. -/
theorem Stands.accept_of_not_fits (h : w.Stands cs done fact.start.toNat) (e : Emitter σ ν)
    (hopened : w.opened.map Frame.fact = done.reverse.filter fun f => fact.start.toNat < f.stop)
    (hdone : ∀ f ∈ done, f.stop ≤ Text.size cs) (hno : ¬ Fits cs done fact) :
    w.accept e (Text.size cs) fact = w.cursor.fail (faultOf cs done fact) := by
  have hbound := h.bound_eq (Text.size cs) hopened
  unfold accept faultOf
  by_cases hbad : BadlyNested (Text.size cs) done fact
  · rw [if_pos hbad, if_pos, hbound]
    left
    rw [hbound]
    exact (badlyNested_iff hdone).1 hbad
  · have hle : fact.start.toNat ≤ fact.stop := Nat.le_add_right _ _
    have hin : ¬ (w.bound (Text.size cs) < fact.stop ∨ fact.start.toNat < w.cursor.pos) := by
      rw [hbound, ← badlyNested_iff hdone]
      simpa [hbad] using h.within
    have hplace : Misplaced cs fact := by
      by_contra hplace
      exact hno ⟨hbad, hplace⟩
    rw [if_neg hbad, if_neg hin, Cursor.misplaced?_eq h.within]
    have hstart := h.cut.isBoundary_iff h.within
    have hstop := h.cut.isBoundary_iff (h.within.trans hle)
    by_cases hs : Text.IsBoundary cs fact.start.toNat
    · have hns : ¬ Text.IsBoundary cs fact.stop := by simpa [Misplaced, hs] using hplace
      rw [if_neg (not_not_intro (hstart.1 hs)), if_pos (mt hstop.2 hns),
        if_neg (not_not_intro hs)]
    · rw [if_pos (mt hstart.2 hs), if_pos hs]

/-- Entering a fact that begins behind the others: it is opened if it fits, else the walk stops. -/
theorem Stands.enter (h : w.Stands cs done reach) (e : Emitter σ ν)
    (hdone : ∀ f ∈ done, f.stop ≤ Text.size cs) (hreach : reach ≤ fact.start.toNat) :
    (Fits cs done fact ∧ ∃ w', w.enter e (Text.size cs) fact = .ok w' ∧
      w'.Stands cs (done ++ [fact]) fact.start.toNat) ∨
    ¬ Fits cs done fact ∧ ∃ state,
      w.enter e (Text.size cs) fact = .error ⟨faultOf cs done fact, state⟩ := by
  obtain ⟨w', hleave, hw', hopened⟩ := h.leave hreach e (Text.size cs)
  have henter : w.enter e (Text.size cs) fact = w'.accept e (Text.size cs) fact := by
    rw [enter_eq, hleave]
    rfl
  rw [henter]
  by_cases hfits : Fits cs done fact
  · refine .inl ⟨hfits, hw'.accept_of_fits e ?_ hfits.2 ?_⟩
    · have hbound := mt (badlyNested_iff hdone).2 hfits.1
      rw [hw'.bound_eq _ hopened]
      omega
    · intro frame hframe
      have hmem : frame.fact ∈ done.reverse.filter fun f => fact.start.toNat < f.stop :=
        hopened ▸ List.mem_map_of_mem hframe
      exact of_decide_eq_true (List.mem_filter.1 hmem).2
  · exact .inr ⟨hfits, w'.cursor.state, hw'.accept_of_not_fits e hopened hdone hfits⟩

/-- A walk over facts that fit goes through. -/
theorem Stands.enterAll (h : w.Stands cs done reach) (e : Emitter σ ν) {todo : List Fact}
    (hfit : AllFit cs (done ++ todo)) (hreach : ∀ f ∈ todo, reach ≤ f.start.toNat)
    (hsorted : todo.Pairwise fun f g => f.start ≤ g.start) :
    ∃ w' reach', todo.foldlM (Walk.enter e (Text.size cs)) w = .ok w' ∧
      w'.Stands cs (done ++ todo) reach' ∧
      ∀ n, reach ≤ n → (∀ f ∈ todo, f.start.toNat ≤ n) → reach' ≤ n := by
  induction todo generalizing done reach w with
  | nil => exact ⟨w, reach, rfl, by simpa using h, fun n hn _ => hn⟩
  | cons fact rest ih =>
    obtain ⟨hfact, hrest⟩ := List.pairwise_cons.1 hsorted
    rcases h.enter e (fun f hf => (hfit.append_left.stop_le hf)) (hreach fact List.mem_cons_self)
      with ⟨-, w', henter, hw'⟩ | ⟨hno, -⟩
    · obtain ⟨w'', reach', hok, hw'', hup⟩ := ih hw' (by simpa using hfit)
        (fun f hf => UInt32.le_iff_toNat_le.1 (hfact f hf)) hrest
      refine ⟨w'', reach', ?_, by simpa using hw'', ?_⟩
      · rw [List.foldlM_cons, henter]
        exact hok
      · intro n _ hn
        exact hup n (hn fact List.mem_cons_self) fun f hf => hn f (List.mem_cons_of_mem _ hf)
    · exact absurd (hfit done fact rest rfl) hno

theorem Steady.finish (h : w.Steady cs) (e : Emitter σ ν) :
    ∃ out, w.finish e (Text.size cs) = .ok out := by
  obtain ⟨w', hleave, hw', -, hup⟩ := h.leaveWhile e (Text.size cs) fun _ => true
  have hpos : w'.cursor.pos ≤ Text.size cs := by
    obtain ⟨before, rfl, hbefore⟩ := hw'.cut
    simp [← hbefore]
  obtain ⟨c, hadvance, -⟩ := hw'.cut.advance e Text.isBoundary_size hpos (Text.size cs)
  refine ⟨(c.nodes.reverse, c.state), ?_⟩
  simp only [Walk.finish, hleave]
  change (w'.cursor.advance e (Text.size cs) (Text.size cs) >>= _) = _
  rw [hadvance]
  rfl

end Walk

def startsBy (f g : Fact) : Bool := f.start ≤ g.start

theorem startsBy_trans (f g k : Fact) (hfg : startsBy f g) (hgk : startsBy g k) : startsBy f k :=
  decide_eq_true (UInt32.le_trans (of_decide_eq_true hfg) (of_decide_eq_true hgk))

theorem startsBy_total (f g : Fact) : startsBy f g || startsBy g f := by
  simpa [startsBy] using UInt32.le_total f.start g.start

theorem inOrder_sorted (facts : List Fact) :
    (inOrder facts).Pairwise fun f g => f.start ≤ g.start :=
  (List.pairwise_mergeSort startsBy_trans startsBy_total facts).imp of_decide_eq_true

theorem inOrder_alike (facts : List Fact) : AlikeBy Fact.start (inOrder facts) facts := by
  intro start
  have htied : ∀ fs : List Fact, fs.filter (fun f => f.start = start) =
      tied startsBy ⟨start, 0, .localVariable ""⟩ fs := by
    intro fs
    apply List.filter_congr
    intro f _
    rw [startsBy, startsBy, ← Bool.decide_and]
    apply decide_eq_decide.2
    grind
  rw [htied, htied]
  exact tied_mergeSort startsBy_total startsBy_trans _ facts

variable (e : Emitter σ ν) (text : String) (facts : List Fact) (state : σ)

theorem render_of_allFit (h : AllFit text.toList (inOrder facts)) :
    ∃ out, render e text facts state = .ok out := by
  obtain ⟨w, reach, hwalk, hw, -⟩ := (Walk.stands_start text state).enterAll e
    (by simpa using h) (fun f _ => Nat.zero_le _) (inOrder_sorted facts)
  obtain ⟨out, hout⟩ := hw.toSteady.finish e
  refine ⟨out, ?_⟩
  unfold render
  simp only [hwalk]
  exact hout

theorem render_of_first {earlier later : List Fact} {fact : Fact}
    (hsplit : inOrder facts = earlier ++ fact :: later) (hearlier : AllFit text.toList earlier)
    (hfact : ¬ Fits text.toList earlier fact) :
    ∃ s, render e text facts state = .error ⟨faultOf text.toList earlier fact, s⟩ := by
  have hsorted := inOrder_sorted facts
  rw [hsplit] at hsorted
  obtain ⟨hbefore, -, hcross⟩ := List.pairwise_append.1 hsorted
  obtain ⟨w, reach, hwalk, hw, hup⟩ := (Walk.stands_start text state).enterAll e
    (by simpa using hearlier) (fun f _ => Nat.zero_le _) hbefore
  have hreach : reach ≤ fact.start.toNat := by
    apply hup _ (Nat.zero_le _)
    intro f hf
    exact UInt32.le_iff_toNat_le.1 (hcross f hf fact List.mem_cons_self)
  rw [List.nil_append] at hw
  rcases hw.enter e (fun f hf => hearlier.stop_le hf) hreach with ⟨hfits, -⟩ | ⟨-, s, henter⟩
  · exact absurd hfits hfact
  · refine ⟨s, ?_⟩
    simp only [render, hsplit, List.foldlM_append, List.foldlM_cons, hwalk]
    simp only [bind, Except.bind, henter]

theorem render_ok_iff :
    (∃ out, render e text facts state = .ok out) ↔ AllFit text.toList (inOrder facts) := by
  constructor
  · rintro ⟨out, hout⟩
    rcases allFit_or_first text.toList (inOrder facts) with hall | ⟨_, _, _, hsplit, hearlier, hno⟩
    · exact hall
    · obtain ⟨s, herror⟩ := render_of_first e text facts state hsplit hearlier hno
      simp [hout] at herror
  · exact render_of_allFit e text facts state

/-- The facts are taken by start, those of one start as given. The walk goes through if all of them
fit, and else reports what is wrong with the first that does not. -/
theorem render_outcome :
    (inOrder facts).Pairwise (fun f g => f.start ≤ g.start) ∧
    AlikeBy Fact.start (inOrder facts) facts ∧
    ((∃ out, render e text facts state = .ok out) ↔ AllFit text.toList (inOrder facts)) ∧
    ∀ fault, (∃ s, render e text facts state = .error ⟨fault, s⟩) ↔
      ∃ earlier fact later, inOrder facts = earlier ++ fact :: later ∧
        AllFit text.toList earlier ∧ ¬ Fits text.toList earlier fact ∧
        fault = faultOf text.toList earlier fact := by
  refine ⟨inOrder_sorted facts, inOrder_alike facts, render_ok_iff e text facts state,
    fun fault => ⟨?_, ?_⟩⟩
  · rintro ⟨s, hs⟩
    rcases allFit_or_first text.toList (inOrder facts) with
      hall | ⟨earlier, fact, later, hsplit, hearlier, hno⟩
    · obtain ⟨out, hout⟩ := render_of_allFit e text facts state hall
      simp [hout] at hs
    · obtain ⟨s', herror⟩ := render_of_first e text facts state hsplit hearlier hno
      refine ⟨earlier, fact, later, hsplit, hearlier, hno, ?_⟩
      rw [hs] at herror
      exact (Stop.mk.inj (Except.error.inj herror)).1
  · rintro ⟨earlier, fact, later, hsplit, hearlier, hno, rfl⟩
    exact render_of_first e text facts state hsplit hearlier hno

end CrossRef.Markup
