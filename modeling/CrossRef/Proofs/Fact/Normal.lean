import CrossRef.Fact.Normal
import CrossRef.Proofs.Catalog
import Mathlib.Tactic.Common

namespace CrossRef

namespace Fact

def range (f : Fact) : UInt32 × UInt32 := (f.start, f.length)

/-- Of two ranges with one start the empty one comes first, or else the longer one. -/
def Leads (r s : UInt32 × UInt32) : Prop := r.1 < s.1 ∨ r.1 = s.1 ∧ (r.2 = 0 ∨ s.2 ≤ r.2)

/-- The order of ranges: by start, then the empty one, then the longer before the shorter. -/
def Before (r s : UInt32 × UInt32) : Prop :=
  r.1 < s.1 ∨ r.1 = s.1 ∧ (r.2 = 0 ∨ s.2 ≠ 0 ∧ s.2 ≤ r.2)

def Ordered (facts : List Fact) : Prop := facts.Pairwise fun f g => Before f.range g.range

def group (r : UInt32 × UInt32) (facts : List Fact) : List Fact := facts.filter fun f => f.range = r

/-- The classes that a style gives. -/
def classes? (f : Fact) : Option TextSet :=
  match f.payload with
  | .style classes => some classes
  | _ => none

def isStyle (f : Fact) : Bool := f.classes?.isSome

/-- The classes of all styles among some facts. -/
def classesOf (facts : List Fact) : TextSet := (facts.filterMap classes?).foldl Catalog.union .empty

/-- What is wrong with two references of one kind on one range. -/
def clash? (f g : Fact) : Option Normal.Clash :=
  match f.payload, g.payload with
  | .reference first kind _, .reference second kind' _ =>
    if f.range = g.range ∧ kind = kind' ∧ ¬ kind.mayCoincide then
      some ⟨f.start, f.length, first, second⟩
    else none
  | _, _ => none

theorem sameRange_iff {f g : Fact} : f.sameRange g = true ↔ f.range = g.range := by
  simp [sameRange, range]

theorem stop_eq_of_range {f g : Fact} (h : f.range = g.range) :
    f.start = g.start ∧ f.stop = g.stop := by
  obtain ⟨hstart, hlength⟩ := Prod.mk.inj h
  exact ⟨hstart, by rw [stop, stop, hstart, hlength]⟩

theorem precedes_trans (f g k : Fact) (hfg : f.precedes g) (hgk : g.precedes k) :
    f.precedes k := by
  unfold precedes at *
  grind

theorem precedes_total (f g : Fact) : f.precedes g || g.precedes f := by
  unfold precedes
  grind

theorem rank_le_iff (f g : Fact) :
    f.rank ≤ g.rank ↔ f.length = 0 ∨ g.length ≠ 0 ∧ g.length ≤ f.length := by
  have hf := f.length.toNat_lt_size
  have hg := g.length.toNat_lt_size
  have hzero : ∀ n : UInt32, n = 0 ↔ n.toNat = 0 := fun n => UInt32.toNat_inj.symm
  simp only [rank, ne_eq, hzero, UInt32.le_iff_toNat_le]
  split <;> split <;> omega

theorem precedes_iff {f g : Fact} : f.precedes g = true ↔ Before f.range g.range := by
  rw [precedes, decide_eq_true_iff, rank_le_iff]
  rfl

theorem Before.leads {r s : UInt32 × UInt32} (h : Before r s) : Leads r s :=
  h.imp_right fun h => h.imp_right fun h => h.imp_right And.right

theorem Before.antisymm {r s : UInt32 × UInt32} (h : Before r s) (h' : Before s r) : r = s := by
  have hzero : ∀ n : UInt32, n = 0 ↔ n.toNat = 0 := fun n => UInt32.toNat_inj.symm
  simp only [Before, UInt32.lt_iff_toNat_lt, UInt32.le_iff_toNat_le, ne_eq, hzero,
    ← UInt32.toNat_inj] at h h'
  refine Prod.ext (UInt32.toNat_inj.1 ?_) (UInt32.toNat_inj.1 ?_) <;> omega

theorem ordered_mergeSort (facts : List Fact) : Ordered (facts.mergeSort precedes) :=
  (List.pairwise_mergeSort precedes_trans precedes_total facts).imp precedes_iff.1

theorem mergeSort_of_ordered {facts : List Fact} (h : Ordered facts) :
    facts.mergeSort precedes = facts :=
  List.mergeSort_of_pairwise (h.imp precedes_iff.2)

/-- Of facts in order those of one range stand together. -/
theorem range_ne_of_ordered {f g : Fact} {rest : List Fact} (h : Ordered (f :: g :: rest))
    (hne : f.range ≠ g.range) : ∀ k ∈ g :: rest, k.range ≠ f.range := by
  intro k hk hrange
  obtain ⟨hf, hg⟩ := List.pairwise_cons.1 h
  have hfg := hf g List.mem_cons_self
  rcases List.mem_cons.1 hk with rfl | hk
  · exact hne hrange.symm
  · have hgk := (List.pairwise_cons.1 hg).1 k hk
    rw [hrange] at hgk
    exact hne (hfg.antisymm hgk)

theorem clash?_of_style {f g : Fact} (h : f.isStyle = true ∨ g.isStyle = true) :
    f.clash? g = none := by
  obtain ⟨start, length, payload⟩ := f
  obtain ⟨start', length', payload'⟩ := g
  cases payload <;> cases payload' <;> simp_all [isStyle, classes?, clash?]

theorem clash?_of_range_ne {f g : Fact} (h : f.range ≠ g.range) : f.clash? g = none := by
  unfold clash?
  split
  · rw [if_neg fun hall => h hall.1]
  · rfl

theorem meet_of_range {f g : Fact} (hf : f.isStyle = false) (h : f.range = g.range) :
    f.payload.meet g.payload = match f.clash? g with
      | some clash => .clash clash.first clash.second
      | none => .apart := by
  obtain ⟨start, length, payload⟩ := f
  obtain ⟨start', length', payload'⟩ := g
  cases payload with
  | style classes => simp [isStyle, classes?] at hf
  | reference first kind id =>
    cases payload' with
    | reference second kind' id' =>
      simp only [Payload.meet, clash?, h, true_and]
      split <;> rfl
    | _ => rfl
  | _ => rfl

theorem range_of_clash? {f g : Fact} {clash : Normal.Clash} (h : f.clash? g = some clash) :
    clash.start = f.start ∧ clash.length = f.length := by
  unfold clash? at h
  split at h
  · split at h
    · obtain rfl := Option.some.inj h
      exact ⟨rfl, rfl⟩
    · simp at h
  · simp at h

end Fact

namespace Normal

open CrossRef.Fact (Ordered group classesOf)

variable {f g : Fact} {rest facts facts' : List Fact} {clash : Option Clash}

/-- A style takes the classes of the other styles of its range, and these are gone. -/
theorem absorb_style {start length : UInt32} {classes : TextSet}
    (h : Ordered (⟨start, length, .style classes⟩ :: rest)) :
    absorb ⟨start, length, .style classes⟩ rest =
      .ok (⟨start, length,
          .style (classesOf (⟨start, length, .style classes⟩ :: group (start, length) rest))⟩,
        rest.filter fun g => ¬ (g.range = (start, length) ∧ g.isStyle)) := by
  induction rest generalizing classes with
  | nil => simp [absorb, classesOf, Fact.classes?, group, Catalog.empty_union]
  | cons g rest ih =>
    rw [absorb]
    by_cases hrange : g.range = (start, length)
    · have hsame : Fact.range ⟨start, length, .style classes⟩ = g.range := hrange.symm
      rw [if_pos (Fact.sameRange_iff.2 hsame)]
      have hrest : ∀ classes, Ordered (⟨start, length, .style classes⟩ :: rest) := by
        intro classes
        obtain ⟨hf, hg⟩ := List.pairwise_cons.1 h
        exact List.pairwise_cons.2
          ⟨fun k hk => hf k (List.mem_cons_of_mem _ hk), (List.pairwise_cons.1 hg).2⟩
      obtain ⟨start', length', payload⟩ := g
      cases payload with
      | style others =>
        simp only [Payload.meet, ih (hrest _)]
        simp [classesOf, group, Fact.classes?, Fact.isStyle, hrange, Catalog.empty_union]
      | _ =>
        simp only [Payload.meet, ih (hrest _), Except.map]
        simp [classesOf, group, Fact.classes?, Fact.isStyle, hrange, List.filterMap_cons]
    · have hdiffer : Fact.range ⟨start, length, .style classes⟩ ≠ g.range := Ne.symm hrange
      have hne : ∀ k ∈ g :: rest, k.range ≠ (start, length) := Fact.range_ne_of_ordered h hdiffer
      rw [if_neg (mt Fact.sameRange_iff.1 hdiffer)]
      have hnone : group (start, length) (g :: rest) = [] := by
        apply List.filter_eq_nil_iff.2
        intro k hk
        simpa using hne k hk
      have hall : ((g :: rest).filter fun k => ¬ (k.range = (start, length) ∧ k.isStyle)) =
          g :: rest := by
        apply List.filter_eq_self.2
        intro k hk
        simp [hne k hk]
      rw [hnone, hall]
      simp [classesOf, Fact.classes?, Catalog.empty_union]

/-- Any other fact stays as it is, unless it clashes with one of its range. -/
theorem absorb_other (hf : f.isStyle = false) (h : Ordered (f :: rest)) :
    absorb f rest = (rest.findSome? f.clash?).elim (.ok (f, rest)) .error := by
  induction rest with
  | nil => rfl
  | cons g rest ih =>
    rw [absorb, List.findSome?_cons]
    by_cases hrange : f.range = g.range
    · have hrest : Ordered (f :: rest) := h.sublist ((List.sublist_cons_self g rest).cons_cons f)
      rw [if_pos (Fact.sameRange_iff.2 hrange), Fact.meet_of_range hf hrange]
      cases hclash : f.clash? g with
      | some clash =>
        obtain ⟨hstart, hlength⟩ := Fact.range_of_clash? hclash
        simp [← hstart, ← hlength]
      | none =>
        simp only [ih hrest]
        cases rest.findSome? f.clash? <;> rfl
    · have hne := Fact.range_ne_of_ordered h hrange
      have hnone : rest.findSome? f.clash? = none := by
        apply List.findSome?_eq_none_iff.2
        intro k hk
        exact Fact.clash?_of_range_ne (hne k (List.mem_cons_of_mem _ hk)).symm
      rw [if_neg (mt Fact.sameRange_iff.1 hrange), Fact.clash?_of_range_ne hrange, hnone]
      rfl

/-- How facts in order are settled one after the other: a style takes its group along, any other
fact stays, and the first that clashes leaves the facts from there on as they are. -/
inductive Settles : List Fact → List Fact → Option Clash → Prop
  | nil : Settles [] [] none
  | style {start length : UInt32} {rest settled : List Fact} {clash : Option Clash}
      (classes : TextSet) :
      Settles (rest.filter fun g => ¬ (g.range = (start, length) ∧ g.isStyle)) settled clash →
      Settles (⟨start, length, .style classes⟩ :: rest)
        (⟨start, length,
          .style (classesOf (⟨start, length, .style classes⟩ :: group (start, length) rest))⟩ ::
            settled) clash
  | other {f : Fact} {rest settled : List Fact} {clash : Option Clash} :
      f.isStyle = false → (∀ g ∈ rest, f.clash? g = none) → Settles rest settled clash →
      Settles (f :: rest) (f :: settled) clash
  | stuck {f : Fact} {rest : List Fact} {clash : Clash} :
      f.isStyle = false → rest.findSome? f.clash? = some clash →
      Settles (f :: rest) (f :: rest) (some clash)

theorem settles_settle {n : Nat} (hn : facts.length ≤ n) (h : Ordered facts) :
    Settles facts (settle n facts).1 (settle n facts).2 := by
  induction n generalizing facts with
  | zero =>
    obtain rfl : facts = [] := List.length_eq_zero_iff.1 (Nat.le_zero.1 hn)
    exact .nil
  | succ n ih =>
    cases facts with
    | nil => exact .nil
    | cons f rest =>
      have hrest : ∀ rest' : List Fact, rest'.Sublist rest →
          Settles rest' (settle n rest').1 (settle n rest').2 := by
        intro rest' hsub
        have hle := hsub.length_le
        rw [List.length_cons] at hn
        exact ih (by omega) ((List.pairwise_cons.1 h).2.sublist hsub)
      rw [settle]
      cases hstyle : f.isStyle with
      | true =>
        obtain ⟨start, length, payload⟩ := f
        cases payload with
        | style classes =>
          rw [absorb_style h]
          exact .style classes (hrest _ List.filter_sublist)
        | _ => simp [Fact.isStyle, Fact.classes?] at hstyle
      | false =>
        rw [absorb_other hstyle h]
        cases hfind : rest.findSome? f.clash? with
        | some clash => exact .stuck hstyle hfind
        | none => exact .other hstyle (List.findSome?_eq_none_iff.1 hfind) (hrest _ (.refl _))

theorem Settles.settle_eq (h : Settles facts facts' clash) (hordered : Ordered facts) {n : Nat}
    (hn : facts.length ≤ n) : settle n facts = (facts', clash) := by
  induction h generalizing n with
  | nil => cases n <;> rfl
  | @style start length rest settled clash classes _ ih =>
    obtain ⟨n, rfl⟩ := Nat.exists_eq_add_one_of_ne_zero (Nat.ne_zero_of_lt hn)
    have hle := (List.filter_sublist (p := fun g : Fact =>
      ¬ (g.range = (start, length) ∧ g.isStyle)) (l := rest)).length_le
    rw [List.length_cons] at hn
    have hrest := ih ((List.pairwise_cons.1 hordered).2.sublist List.filter_sublist)
      (n := n) (by omega)
    rw [settle, absorb_style hordered]
    simp only [hrest]
  | @other f rest settled clash hf hnone _ ih =>
    obtain ⟨n, rfl⟩ := Nat.exists_eq_add_one_of_ne_zero (Nat.ne_zero_of_lt hn)
    rw [List.length_cons] at hn
    have hrest := ih (List.pairwise_cons.1 hordered).2 (n := n) (by omega)
    rw [settle, absorb_other hf hordered, List.findSome?_eq_none_iff.2 hnone]
    simp only [Option.elim_none, hrest]
  | stuck hf hfind =>
    obtain ⟨n, rfl⟩ := Nat.exists_eq_add_one_of_ne_zero (Nat.ne_zero_of_lt hn)
    rw [settle, absorb_other hf hordered, hfind]
    rfl

namespace Settles

theorem ranges (h : Settles facts facts' clash) :
    (facts'.map Fact.range).Sublist (facts.map Fact.range) ∧
      ∀ g ∈ facts, g.range ∈ facts'.map Fact.range := by
  induction h with
  | nil => simp
  | @style start length rest settled clash classes _ ih =>
    obtain ⟨hsub, hall⟩ := ih
    refine ⟨(hsub.trans (List.filter_sublist.map Fact.range)).cons_cons _, ?_⟩
    intro g hg
    rcases List.mem_cons.1 hg with rfl | hg
    · exact List.mem_cons_self
    · by_cases hrange : g.range = (start, length)
      · rw [hrange]
        exact List.mem_cons_self
      · exact List.mem_cons_of_mem _ (hall g (List.mem_filter.2 ⟨hg, by simp [hrange]⟩))
  | other _ _ _ ih =>
    obtain ⟨hsub, hall⟩ := ih
    refine ⟨hsub.cons_cons _, ?_⟩
    intro g hg
    rcases List.mem_cons.1 hg with rfl | hg
    · exact List.mem_cons_self
    · exact List.mem_cons_of_mem _ (hall g hg)
  | stuck _ _ => exact ⟨.refl _, fun g hg => List.mem_map_of_mem hg⟩

theorem ordered (h : Settles facts facts' clash) (hordered : Ordered facts) : Ordered facts' :=
  List.pairwise_map.1 ((List.pairwise_map.2 hordered).sublist h.ranges.1)

/-- What is settled was there, or is a style in the place of styles. -/
theorem origin (h : Settles facts facts' clash) :
    ∀ g' ∈ facts', g' ∈ facts ∨
      g'.isStyle = true ∧ ∃ g ∈ facts, g.isStyle = true ∧ g.range = g'.range := by
  induction h with
  | nil => simp
  | style _ _ ih =>
    intro g' hg'
    rcases List.mem_cons.1 hg' with rfl | hg'
    · exact .inr ⟨rfl, _, List.mem_cons_self, rfl, rfl⟩
    · rcases ih g' hg' with hmem | ⟨hstyle, g, hg, hboth⟩
      · exact .inl (List.mem_cons_of_mem _ (List.mem_filter.1 hmem).1)
      · exact .inr ⟨hstyle, g, List.mem_cons_of_mem _ (List.mem_filter.1 hg).1, hboth⟩
  | other _ _ _ ih =>
    intro g' hg'
    rcases List.mem_cons.1 hg' with rfl | hg'
    · exact .inl List.mem_cons_self
    · rcases ih g' hg' with hmem | ⟨hstyle, g, hg, hboth⟩
      · exact .inl (List.mem_cons_of_mem _ hmem)
      · exact .inr ⟨hstyle, g, List.mem_cons_of_mem _ hg, hboth⟩
  | stuck _ _ => exact fun g' hg' => .inl hg'

theorem again (h : Settles facts facts' clash) : Settles facts' facts' clash := by
  induction h with
  | nil => exact .nil
  | @style start length rest settled clash classes hsettles ih =>
    have hgone : ∀ g ∈ settled, g.range = (start, length) → g.isStyle = false := by
      intro g hg hrange
      by_contra hstyle
      rw [Bool.not_eq_false] at hstyle
      rcases hsettles.origin g hg with hmem | ⟨-, k, hk, hkstyle, hkrange⟩
      · have hkept := (List.mem_filter.1 hmem).2
        simp [hrange, hstyle] at hkept
      · have hkept := (List.mem_filter.1 hk).2
        simp [hkrange, hrange, hkstyle] at hkept
    have hkeep : (settled.filter fun g => ¬ (g.range = (start, length) ∧ g.isStyle)) = settled := by
      apply List.filter_eq_self.2
      intro g hg
      simpa [imp_iff_not_or] using hgone g hg
    have hclasses : (group (start, length) settled).filterMap Fact.classes? = [] := by
      apply List.filterMap_eq_nil_iff.2
      intro g hg
      obtain ⟨hg, hrange⟩ := List.mem_filter.1 hg
      simpa [Fact.isStyle] using hgone g hg (of_decide_eq_true hrange)
    have hsame : ∀ others : TextSet, classesOf (⟨start, length, .style others⟩ ::
        group (start, length) settled) = others := by
      intro others
      simp [classesOf, Fact.classes?, hclasses, Catalog.empty_union]
    have hrest : Settles (settled.filter fun g => ¬ (g.range = (start, length) ∧ g.isStyle)) settled
        clash := by
      rw [hkeep]
      exact ih
    have hstep := hrest.style
      (classesOf (⟨start, length, .style classes⟩ :: group (start, length) rest))
    rwa [hsame] at hstep
  | @other f rest settled clash hf hnone hsettles ih =>
    refine .other hf (fun g hg => ?_) ih
    rcases hsettles.origin g hg with hmem | ⟨hstyle, -⟩
    · exact hnone g hmem
    · exact Fact.clash?_of_style (.inr hstyle)
  | stuck hf hfind => exact .stuck hf hfind

/-- Only styles merge: all that has no place for a style is kept in its order. -/
theorem keeps {β : Type} {part : Fact → Option β} (h : Settles facts facts' clash)
    (hstyle : ∀ start length classes, part ⟨start, length, .style classes⟩ = none) :
    facts'.filterMap part = facts.filterMap part := by
  induction h with
  | nil => rfl
  | @style start length rest settled clash classes _ ih =>
    rw [List.filterMap_cons_none (hstyle _ _ _), List.filterMap_cons_none (hstyle _ _ _), ih,
      List.filterMap_filter]
    apply List.filterMap_congr
    intro g _
    obtain ⟨start', length', payload⟩ := g
    cases payload with
    | style others => simp [hstyle]
    | _ => simp [Fact.isStyle, Fact.classes?]
  | other _ _ _ ih => rw [List.filterMap_cons, List.filterMap_cons, ih]
  | stuck _ _ => rfl

end Settles

end Normal

open CrossRef.Normal (Clash Settles)

variable {facts facts' : List Fact} {clash : Option Clash}

theorem settles_normalize (facts : List Fact) :
    Settles (facts.mergeSort Fact.precedes) (normalize facts).1 (normalize facts).2 :=
  Normal.settles_settle (Nat.le_of_eq (List.length_mergeSort facts)) (Fact.ordered_mergeSort facts)

theorem ordered_normalize (facts : List Fact) : Fact.Ordered (normalize facts).1 :=
  (settles_normalize facts).ordered (Fact.ordered_mergeSort facts)

theorem normalize_leads (h : normalize facts = (facts', clash)) :
    facts'.Pairwise fun f g => Fact.Leads f.range g.range := by
  have hordered := ordered_normalize facts
  rw [h] at hordered
  exact hordered.imp Fact.Before.leads

theorem mem_range_normalize (h : normalize facts = (facts', clash)) (r : UInt32 × UInt32) :
    r ∈ facts'.map Fact.range ↔ r ∈ facts.map Fact.range := by
  have hsettles := settles_normalize facts
  rw [h] at hsettles
  obtain ⟨hsub, hall⟩ := hsettles.ranges
  have hsorted : r ∈ (facts.mergeSort Fact.precedes).map Fact.range ↔ r ∈ facts.map Fact.range :=
    ((List.mergeSort_perm facts Fact.precedes).map Fact.range).mem_iff
  rw [← hsorted]
  refine ⟨fun hr => hsub.subset hr, fun hr => ?_⟩
  obtain ⟨g, hg, rfl⟩ := List.mem_map.1 hr
  exact hall g hg

/-- What was brought into normal order once comes out of it the same a second time. -/
theorem normalize_normalize (facts : List Fact) : normalize (normalize facts).1 = normalize facts := by
  have hordered := ordered_normalize facts
  rw [normalize, Fact.mergeSort_of_ordered hordered]
  exact (settles_normalize facts).again.settle_eq hordered (Nat.le_refl _)

/-- Only styles merge: of all other facts none is lost and none is new. -/
theorem filterMap_normalize {β : Type} {part : Fact → Option β}
    (hstyle : ∀ start length classes, part ⟨start, length, .style classes⟩ = none)
    (facts : List Fact) : ((normalize facts).1.filterMap part).Perm (facts.filterMap part) := by
  rw [(settles_normalize facts).keeps hstyle]
  exact (List.mergeSort_perm facts Fact.precedes).filterMap part

namespace SourceFile

/-- Facts that stand in order and are settled stay as they are. -/
theorem normalize_of_settled {file : SourceFile}
    (hsorted : file.facts.Pairwise fun f g => f.precedes g = true)
    (hsettled : Normal.settle file.facts.length file.facts = (file.facts, none)) :
    file.normalize = (file, none) := by
  have hordered : file.facts.mergeSort Fact.precedes = file.facts :=
    List.mergeSort_of_pairwise hsorted
  rw [normalize, CrossRef.normalize, hordered, hsettled]
  rfl

theorem normalize_normalize (file : SourceFile) : file.normalize.1.normalize = file.normalize := by
  have hnormal := CrossRef.normalize_normalize file.facts
  simp only [normalize, hnormal]

theorem mentions_normalize {source file : SourceFile} {fault : Option Fault}
    (h : source.normalize = (file, fault)) : file.mentions.Perm source.mentions := by
  obtain ⟨rfl, -⟩ := Prod.mk.inj h
  exact filterMap_normalize (fun _ _ _ => rfl) source.facts

end SourceFile

end CrossRef
