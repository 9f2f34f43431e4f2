import CrossRef.Proofs.Alike
import CrossRef.Proofs.Fact.Normal
import Mathlib.Data.List.Nodup

namespace CrossRef

namespace Fact

/-- A group with the classes of all its styles in the first of them. -/
def merged : List Fact → List Fact
  | [] => []
  | f :: rest =>
    match f.payload with
    | .style _ => { f with payload := .style (classesOf (f :: rest)) } ::
        rest.filter fun g => !g.isStyle
    | _ => f :: merged rest

/-- Two references on one range that are of one kind, where that kind may come only once. -/
inductive Clashes : Fact → Fact → Binding → Binding → Prop
  | references {start length : UInt32} {first second : Binding} {kind : ReferenceKind}
      {id id' : UInt32} :
      kind ≠ .superType → kind ≠ .superMethod →
      Clashes ⟨start, length, .reference first kind id⟩ ⟨start, length, .reference second kind id'⟩
        first second

/-- Facts put in order, where those of one range stay as they were. -/
structure Arranged (facts sorted : List Fact) : Prop where
  ordered : Ordered sorted
  stable : ∀ r, group r sorted = group r facts

/-- Of the pairs that clash the one whose first fact, and then whose second fact, comes first. -/
structure FirstPair (facts : List Fact) (i j : Nat) (f g : Fact) (first second : Binding) :
    Prop where
  left : facts[i]? = some f
  right : facts[j]? = some g
  apart : i < j
  clash : f.Clashes g first second
  least : ∀ i' j' f' g' b c, i' < j' → facts[i']? = some f' → facts[j']? = some g' →
    f'.Clashes g' b c → i < i' ∨ i = i' ∧ j ≤ j'

theorem tied_eq_group (f : Fact) (facts : List Fact) : tied precedes f facts = group f.range facts := by
  apply List.filter_congr
  intro g _
  rw [Bool.eq_iff_iff, Bool.and_eq_true, precedes_iff, precedes_iff, decide_eq_true_iff]
  constructor
  · exact fun ⟨h, h'⟩ => h'.antisymm h
  · intro h
    rw [h]
    exact ⟨.inr ⟨rfl, by grind⟩, .inr ⟨rfl, by grind⟩⟩

theorem group_mergeSort (r : UInt32 × UInt32) (facts : List Fact) :
    group r (facts.mergeSort precedes) = group r facts := by
  have htied := tied_mergeSort precedes_total precedes_trans ⟨r.1, r.2, .localVariable ""⟩ facts
  rwa [tied_eq_group, tied_eq_group] at htied

/-- Facts in order are known from their groups. -/
theorem eq_of_groups {facts facts' : List Fact} (h : Ordered facts) (h' : Ordered facts')
    (hgroups : ∀ r, group r facts = group r facts') : facts = facts' := by
  refine eq_of_tied (fun f => by simpa using precedes_total f f) (h.imp precedes_iff.2)
    (h'.imp precedes_iff.2) fun f => ?_
  rw [tied_eq_group, tied_eq_group, hgroups]

/-- There is one way to put facts in order. -/
theorem arranged_iff (facts sorted : List Fact) :
    Arranged facts sorted ↔ sorted = facts.mergeSort precedes := by
  constructor
  · intro h
    refine eq_of_groups h.ordered (ordered_mergeSort facts) fun r => ?_
    rw [h.stable, group_mergeSort]
  · rintro rfl
    exact ⟨ordered_mergeSort facts, fun r => group_mergeSort r facts⟩

theorem clash?_eq_some_iff {f g : Fact} {clash : Normal.Clash} :
    f.clash? g = some clash ↔ f.Clashes g clash.first clash.second ∧
      clash.start = f.start ∧ clash.length = f.length := by
  constructor
  · intro h
    refine ⟨?_, range_of_clash? h⟩
    obtain ⟨start, length, payload⟩ := f
    obtain ⟨start', length', payload'⟩ := g
    cases payload with
    | reference first kind id =>
      cases payload' with
      | reference second kind' id' =>
        obtain ⟨⟨hrange, rfl, hkind⟩, hsome⟩ := Option.ite_none_right_eq_some.1 h
        obtain ⟨rfl, rfl⟩ := Prod.mk.inj hrange
        obtain rfl := Option.some.inj hsome
        obtain ⟨htype, hmethod⟩ : kind ≠ .superType ∧ kind ≠ .superMethod := by
          simpa [ReferenceKind.mayCoincide] using hkind
        exact .references htype hmethod
      | _ => simp [clash?] at h
    | _ => simp [clash?] at h
  · rintro ⟨hclash, hstart, hlength⟩
    obtain ⟨start, length, first, second⟩ := clash
    cases hclash with
    | references htype hmethod =>
      simp only at hstart hlength
      simp [clash?, range, ReferenceKind.mayCoincide, htype, hmethod, hstart, hlength]

theorem clash?_eq_none_iff {f g : Fact} :
    f.clash? g = none ↔ ¬ ∃ first second, f.Clashes g first second := by
  rw [← not_iff_not, not_not, ← ne_eq, Option.ne_none_iff_exists']
  simp only [clash?_eq_some_iff]
  constructor
  · rintro ⟨clash, hclash, -⟩
    exact ⟨_, _, hclash⟩
  · rintro ⟨first, second, hclash⟩
    exact ⟨⟨f.start, f.length, first, second⟩, hclash, rfl, rfl⟩

/-- The first clash, by the first of its facts and then by the second. -/
def firstClash? : List Fact → Option Normal.Clash
  | [] => none
  | f :: rest => (rest.findSome? f.clash?).or (firstClash? rest)

theorem firstClash?_eq_none_iff {facts : List Fact} :
    firstClash? facts = none ↔ facts.Pairwise fun f g => f.clash? g = none := by
  induction facts with
  | nil => simp [firstClash?]
  | cons f rest ih =>
    rw [firstClash?, Option.or_eq_none_iff, List.findSome?_eq_none_iff, ih, List.pairwise_cons]

theorem firstPair_of_firstClash? {facts : List Fact} {clash : Normal.Clash}
    (h : firstClash? facts = some clash) :
    ∃ i j f g, FirstPair facts i j f g clash.first clash.second ∧
      clash.start = f.start ∧ clash.length = f.length := by
  induction facts with
  | nil => simp [firstClash?] at h
  | cons f rest ih =>
    rw [firstClash?] at h
    cases hfind : rest.findSome? f.clash? with
    | some found =>
      rw [hfind, Option.some_or] at h
      obtain rfl := Option.some.inj h
      obtain ⟨before, g, behind, rfl, hclash, hnone⟩ := List.findSome?_eq_some_iff.1 hfind
      obtain ⟨hclashes, hrange⟩ := clash?_eq_some_iff.1 hclash
      refine ⟨0, before.length + 1, f, g, ⟨rfl, by simp, by simp, hclashes, ?_⟩, hrange⟩
      intro i' j' f' g' b c hlt hf' hg' hclash'
      cases i' with
      | succ i' => exact .inl (Nat.succ_pos i')
      | zero =>
        refine .inr ⟨rfl, ?_⟩
        obtain rfl : f = f' := Option.some.inj hf'
        obtain ⟨k, rfl⟩ := Nat.exists_eq_add_one_of_ne_zero (Nat.ne_zero_of_lt hlt)
        by_contra hle
        have hk : k < before.length := by omega
        rw [List.getElem?_cons_succ, List.getElem?_append_left hk] at hg'
        exact clash?_eq_none_iff.1 (hnone g' (List.mem_of_getElem? hg')) ⟨b, c, hclash'⟩
    | none =>
      rw [hfind, Option.none_or] at h
      obtain ⟨i, j, f₁, g, hpair, hrange⟩ := ih h
      refine ⟨i + 1, j + 1, f₁, g, ⟨hpair.left, hpair.right, by simpa using hpair.apart, hpair.clash,
        ?_⟩, hrange⟩
      intro i' j' f' g' b c hlt hf' hg' hclash'
      obtain ⟨k, rfl⟩ := Nat.exists_eq_add_one_of_ne_zero (Nat.ne_zero_of_lt hlt)
      cases i' with
      | zero =>
        obtain rfl : f = f' := Option.some.inj hf'
        have hnone := List.findSome?_eq_none_iff.1 hfind g' (List.mem_of_getElem? hg')
        exact absurd ⟨b, c, hclash'⟩ (clash?_eq_none_iff.1 hnone)
      | succ i' =>
        have hleast := hpair.least i' k f' g' b c (by omega) hf' hg' hclash'
        omega

/-- Styles have no part in clashes. -/
theorem firstClash?_filter {facts : List Fact} {p : Fact → Bool}
    (h : ∀ f ∈ facts, p f = false → f.isStyle = true) :
    firstClash? (facts.filter p) = firstClash? facts := by
  induction facts with
  | nil => rfl
  | cons f rest ih =>
    have hrest := ih fun g hg => h g (List.mem_cons_of_mem _ hg)
    cases hp : p f with
    | true =>
      have hfind : (rest.filter p).findSome? f.clash? = rest.findSome? f.clash? := by
        rw [← List.head?_filterMap, ← List.head?_filterMap, List.filterMap_filter]
        congr 1
        apply List.filterMap_congr
        intro g hg
        split
        case isTrue => rfl
        case isFalse hpg =>
          have hstyle := h g (List.mem_cons_of_mem _ hg) (by simpa using hpg)
          exact (clash?_of_style (.inr hstyle)).symm
      rw [List.filter_cons_of_pos hp, firstClash?, firstClash?, hfind, hrest]
    | false =>
      have hstyle := h f List.mem_cons_self hp
      have hfind : rest.findSome? f.clash? = none :=
        List.findSome?_eq_none_iff.2 fun g _ => clash?_of_style (.inl hstyle)
      rw [List.filter_cons_of_neg (by simp [hp]), firstClash?, hfind, Option.none_or, hrest]

theorem merged_of_no_style {facts : List Fact} (h : ∀ f ∈ facts, f.isStyle = false) :
    merged facts = facts := by
  induction facts with
  | nil => rfl
  | cons f rest ih =>
    have hf := h f List.mem_cons_self
    have hrest := ih fun g hg => h g (List.mem_cons_of_mem _ hg)
    obtain ⟨start, length, payload⟩ := f
    cases payload with
    | style classes => simp [isStyle, classes?] at hf
    | _ => rw [merged, hrest]

theorem mem_classesOf {facts : List Fact} {z : String} :
    z ∈ (classesOf facts).toList ↔ ∃ f ∈ facts, ∃ classes ∈ f.classes?, z ∈ classes.toList := by
  have hfold : ∀ (xs : List TextSet) (c : TextSet),
      z ∈ (xs.foldl Catalog.union c).toList ↔ z ∈ c.toList ∨ ∃ d ∈ xs, z ∈ d.toList := by
    intro xs
    induction xs with
    | nil => simp
    | cons d xs ih =>
      intro c
      rw [List.foldl_cons, ih, Catalog.mem_union, or_assoc]
      simp
  rw [classesOf, hfold]
  simp [Catalog.empty, List.mem_filterMap]
  grind

theorem mem_classesOf_cons {f : Fact} {rest : List Fact} {z : String} :
    z ∈ (classesOf (f :: rest)).toList ↔
      (∃ classes ∈ f.classes?, z ∈ classes.toList) ∨ z ∈ (classesOf rest).toList := by
  rw [mem_classesOf, mem_classesOf]
  simp only [List.mem_cons, exists_eq_or_imp]

theorem group_cons (r : UInt32 × UInt32) (f : Fact) (rest : List Fact) :
    group r (f :: rest) = if f.range = r then f :: group r rest else group r rest := by
  simp [group, List.filter_cons]

@[simp] theorem range_mk (start length : UInt32) (payload : Payload) :
    range ⟨start, length, payload⟩ = (start, length) := rfl

theorem group_filter_self (r : UInt32 × UInt32) (rest : List Fact) :
    group r (rest.filter fun g => ¬ (g.range = r ∧ g.isStyle)) =
      (group r rest).filter fun g => !g.isStyle := by
  rw [group, group, List.filter_filter, List.filter_filter]
  apply List.filter_congr
  intro g _
  by_cases hg : g.range = r <;> simp [hg]

theorem group_filter_other {r s : UInt32 × UInt32} (h : s ≠ r) (rest : List Fact) :
    group r (rest.filter fun g => ¬ (g.range = s ∧ g.isStyle)) = group r rest := by
  rw [group, group, List.filter_filter]
  apply List.filter_congr
  intro g _
  by_cases hg : g.range = r
  · simp [hg, h.symm]
  · simp [hg]

end Fact

namespace Normal.Settles

open CrossRef.Fact (Ordered group classesOf merged firstClash?)

variable {facts facts' : List Fact} {clash : Option Clash}

theorem clash_eq (h : Settles facts facts' clash) : clash = firstClash? facts := by
  induction h with
  | nil => rfl
  | @style start length rest settled clash classes _ ih =>
    have hfind : rest.findSome? (Fact.clash? ⟨start, length, .style classes⟩) = none :=
      List.findSome?_eq_none_iff.2 fun g _ => Fact.clash?_of_style (.inl rfl)
    rw [firstClash?, hfind, Option.none_or, ih]
    apply Fact.firstClash?_filter
    intro g _ hg
    have hboth : g.range = (start, length) ∧ g.isStyle = true := by simpa using hg
    exact hboth.2
  | other _ hnone _ ih =>
    rw [firstClash?, List.findSome?_eq_none_iff.2 hnone, Option.none_or, ih]
  | stuck _ hfind => rw [firstClash?, hfind, Option.some_or]

theorem groups (h : Settles facts facts' clash) (hclash : clash = none) (r : UInt32 × UInt32) :
    group r facts' = merged (group r facts) := by
  induction h with
  | nil => rfl
  | @style start length rest settled clash classes _ ih =>
    rw [Fact.group_cons, Fact.group_cons, ih hclash]
    by_cases hr : (start, length) = r
    · subst hr
      have hplain : ∀ g ∈ (group (start, length) rest).filter fun g => !g.isStyle,
          g.isStyle = false := by
        intro g hg
        simpa using (List.mem_filter.1 hg).2
      rw [Fact.group_filter_self, Fact.merged_of_no_style hplain, Fact.range_mk, Fact.range_mk,
        if_pos rfl, if_pos rfl, merged]
    · rw [Fact.group_filter_other hr, Fact.range_mk, Fact.range_mk, if_neg hr, if_neg hr]
  | @other f rest settled clash hf _ _ ih =>
    rw [Fact.group_cons, Fact.group_cons, ih hclash]
    split
    · obtain ⟨start, length, payload⟩ := f
      cases payload with
      | style classes => simp [Fact.isStyle, Fact.classes?] at hf
      | _ => rfl
    · rfl
  | stuck _ _ => simp at hclash

/-- Whatever is settled, a range has the classes that it had. -/
theorem classes_eq (h : Settles facts facts' clash) (r : UInt32 × UInt32) :
    classesOf (group r facts') = classesOf (group r facts) := by
  apply Catalog.eq_of_mem
  intro z
  induction h with
  | nil => rfl
  | @style start length rest settled clash classes _ ih =>
    rw [Fact.group_cons, Fact.group_cons, Fact.range_mk, Fact.range_mk]
    by_cases hr : (start, length) = r
    · subst hr
      rw [Fact.group_filter_self] at ih
      rw [if_pos rfl, if_pos rfl, Fact.mem_classesOf_cons, ih]
      have hsub : z ∈ (classesOf ((group (start, length) rest).filter fun g => !g.isStyle)).toList →
          z ∈ (classesOf (⟨start, length, .style classes⟩ :: group (start, length) rest)).toList := by
        intro hz
        obtain ⟨g, hg, hboth⟩ := Fact.mem_classesOf.1 hz
        exact Fact.mem_classesOf.2 ⟨g, List.mem_cons_of_mem _ (List.mem_filter.1 hg).1, hboth⟩
      simpa [Fact.classes?] using hsub
    · rw [Fact.group_filter_other hr] at ih
      rw [if_neg hr, if_neg hr, ih]
  | other _ _ _ ih =>
    rw [Fact.group_cons, Fact.group_cons]
    split
    · rw [Fact.mem_classesOf_cons, Fact.mem_classesOf_cons, ih]
    · exact ih
  | stuck _ _ => rfl

end Normal.Settles

namespace SourceFile

open CrossRef.Fact (Arranged FirstPair Ordered classesOf group merged)

/-- The order of the facts of a file, with every group merged, or the first pair that clashes. -/
theorem normalize_outcome (file : SourceFile) :
    ∃ sorted, (∀ facts, Arranged file.facts facts ↔ facts = sorted) ∧
      (file.normalize.2 = none ↔
        file.facts.Pairwise fun f g => ¬ ∃ first second, f.Clashes g first second) ∧
      (∀ normal, file.normalize = (normal, none) →
        normal.text = file.text ∧ Ordered normal.facts ∧
          ∀ r, group r normal.facts = merged (group r file.facts)) ∧
      ∀ normal fault, file.normalize = (normal, some fault) →
        ∃ i j f g first second, FirstPair sorted i j f g first second ∧
          fault = .duplicateReference f.start.toNat f.length.toNat first.text second.text := by
  have hsettles := settles_normalize file.facts
  have hclash := hsettles.clash_eq
  refine ⟨file.facts.mergeSort Fact.precedes, Fact.arranged_iff file.facts, ?_, ?_, ?_⟩
  · have hsymm : ∀ {f g : Fact}, (¬ ∃ first second, f.Clashes g first second) →
        ¬ ∃ first second, g.Clashes f first second := by
      rintro f g h ⟨first, second, hclash⟩
      cases hclash with
      | references htype hmethod => exact h ⟨second, first, .references htype hmethod⟩
    rw [normalize, Option.map_eq_none_iff, hclash, Fact.firstClash?_eq_none_iff]
    simp only [Fact.clash?_eq_none_iff]
    exact (List.mergeSort_perm file.facts Fact.precedes).pairwise_iff hsymm
  · intro normal hnormal
    obtain ⟨rfl, hnone⟩ := Prod.mk.inj hnormal
    have hgroups := hsettles.groups (Option.map_eq_none_iff.1 hnone)
    refine ⟨rfl, ordered_normalize file.facts, fun r => (hgroups r).trans ?_⟩
    rw [Fact.group_mergeSort]
  · intro normal fault hnormal
    obtain ⟨-, hsome⟩ := Prod.mk.inj hnormal
    obtain ⟨clash, hfound, rfl⟩ := Option.map_eq_some_iff.1 hsome
    obtain ⟨i, j, f, g, hpair, hstart, hlength⟩ :=
      Fact.firstPair_of_firstClash? (hclash.symm.trans hfound)
    refine ⟨i, j, f, g, _, _, hpair, ?_⟩
    rw [Normal.Clash.fault, hstart, hlength]

/-- What was brought into normal order, or as far as a clash, comes out the same a second time, and
nothing is lost on the way but the borders between styles of one range. -/
theorem normalize_again (file : SourceFile) :
    file.normalize.1.normalize = file.normalize ∧
    (file.normalize.1.facts.filter fun f => !f.isStyle).Perm
      (file.facts.filter fun f => !f.isStyle) ∧
    ∀ r, classesOf (group r file.normalize.1.facts) = classesOf (group r file.facts) := by
  refine ⟨file.normalize_normalize, ?_, fun r => ?_⟩
  · have hkept := filterMap_normalize (fun _ _ _ => rfl : ∀ start length classes,
      Option.guard (fun f : Fact => !f.isStyle) ⟨start, length, .style classes⟩ = none) file.facts
    rwa [List.filterMap_eq_filter] at hkept
  · exact ((settles_normalize file.facts).classes_eq r).trans
      (congrArg classesOf (Fact.group_mergeSort r file.facts))

end SourceFile

end CrossRef
