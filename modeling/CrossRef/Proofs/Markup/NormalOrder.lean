import CrossRef.Markup.Tree
import CrossRef.Proofs.Fact.Normal
import CrossRef.Proofs.Markup.Nesting
import Mathlib.Data.List.Pairwise
import Mathlib.Data.List.Permutation

namespace CrossRef.Markup

variable {σ ν : Type}

/-- `f` begins before `g` and ends within it. -/
def Crosses (f g : Fact) : Prop :=
  f.start < g.start ∧ g.start.toNat < f.stop ∧ f.stop < g.stop

/-- Facts that nest, whatever their order. -/
structure Nests (cs : List Char) (facts : List Fact) : Prop where
  within : ∀ f ∈ facts, f.stop ≤ Text.size cs
  placed : ∀ f ∈ facts, Text.IsBoundary cs f.start.toNat ∧ Text.IsBoundary cs f.stop
  uncrossed : ∀ f ∈ facts, ∀ g ∈ facts, ¬ Crosses f g

instance (f g : Fact) : Decidable (Crosses f g) := inferInstanceAs (Decidable (_ ∧ _))

variable {cs : List Char} {facts facts' : List Fact}

theorem Nests.congr (h : Nests cs facts)
    (hsub : ∀ r ∈ facts'.map Fact.range, r ∈ facts.map Fact.range) : Nests cs facts' := by
  have hlike : ∀ f ∈ facts', ∃ g ∈ facts, f.start = g.start ∧ f.stop = g.stop := by
    intro f hf
    obtain ⟨g, hg, hrange⟩ := List.mem_map.1 (hsub f.range (List.mem_map_of_mem hf))
    exact ⟨g, hg, Fact.stop_eq_of_range hrange.symm⟩
  refine ⟨?_, ?_, ?_⟩
  · intro f hf
    obtain ⟨g, hg, -, hstop⟩ := hlike f hf
    exact hstop ▸ h.within g hg
  · intro f hf
    obtain ⟨g, hg, hstart, hstop⟩ := hlike f hf
    rw [hstart, hstop]
    exact h.placed g hg
  · intro f hf g hg
    obtain ⟨f', hf', hfstart, hfstop⟩ := hlike f hf
    obtain ⟨g', hg', hgstart, hgstop⟩ := hlike g hg
    rw [Crosses, hfstart, hgstart, hfstop, hgstop]
    exact h.uncrossed f' hf' g' hg'

/-- Facts that fit in some order nest. -/
theorem AllFit.nests (h : AllFit cs facts) (hsorted : facts.Pairwise fun f g => f.start ≤ g.start) :
    Nests cs facts := by
  obtain ⟨hall, hpair⟩ := allFit_iff.1 h
  refine ⟨fun f hf => (hall f hf).1, fun f hf => ?_, ?_⟩
  · simpa [Misplaced] using (hall f hf).2
  · have hboth : facts.Pairwise fun f g => ¬ Crosses f g ∧ ¬ Crosses g f := by
      refine (hsorted.and hpair).imp fun h => ⟨fun hcross => h.2 hcross.2, fun hcross => ?_⟩
      exact absurd hcross.1 (UInt32.not_lt.2 h.1)
    have : Std.Symm fun f g : Fact => ¬ Crosses f g ∧ ¬ Crosses g f := ⟨fun f g h => ⟨h.2, h.1⟩⟩
    have hself : ∀ f ∈ facts, ¬ Crosses f f ∧ ¬ Crosses f f := by
      intro f _
      rw [and_self]
      exact fun hcross => UInt32.lt_irrefl _ hcross.1
    intro f hf g hg
    exact (hboth.forall_of_forall hself hf hg).1

/-- Facts that nest fit in their normal order. -/
theorem Nests.allFit (h : Nests cs facts)
    (hleads : facts.Pairwise fun f g => Fact.Leads f.range g.range) : AllFit cs facts := by
  rw [allFit_iff]
  constructor
  · intro f hf
    obtain ⟨hstart, hstop⟩ := h.placed f hf
    exact ⟨h.within f hf, by simp [Misplaced, hstart, hstop]⟩
  · refine hleads.imp_of_mem fun {f g} hf hg hlead hcross => ?_
    rcases hlead with hlt | ⟨heq, hlen⟩
    · exact h.uncrossed f hf g hg ⟨hlt, hcross⟩
    · have hstart : f.start.toNat = g.start.toNat := congrArg UInt32.toNat heq
      have hlength : f.length.toNat = 0 ∨ g.length.toNat ≤ f.length.toNat :=
        hlen.imp (congrArg UInt32.toNat) UInt32.le_iff_toNat_le.1
      obtain ⟨hopen, hstop⟩ := hcross
      unfold Fact.stop at hopen hstop
      omega

theorem inOrder_of_sorted (h : facts.Pairwise fun f g => f.start ≤ g.start) :
    inOrder facts = facts :=
  List.mergeSort_of_pairwise (h.imp decide_eq_true)

/-- A file in normal order can be rendered exactly when its facts nest, and so whenever it could be
rendered before. Facts that have a start in common or meet at an end are never in the way. -/
theorem normalize_renders (e : Emitter σ ν) (state : σ) (file normal : SourceFile)
    (h : file.normalize = (normal, none)) :
    ((∃ out, render e normal.text normal.facts state = .ok out) ↔
      Nests file.text.toList file.facts) ∧
    ((∃ out, render e file.text file.facts state = .ok out) →
      ∃ out, render e normal.text normal.facts state = .ok out) ∧
    ((∀ f ∈ file.facts, f.stop ≤ Text.size file.text.toList) →
      (∀ f ∈ file.facts, ¬ Misplaced file.text.toList f) →
      (∀ f ∈ file.facts, ∀ g ∈ file.facts, f.start = g.start ∨
        f.stop ≤ g.start.toNat ∨ g.stop ≤ f.start.toNat ∨
        f.start ≤ g.start ∧ g.stop ≤ f.stop ∨ g.start ≤ f.start ∧ f.stop ≤ g.stop) →
      ∃ out, render e normal.text normal.facts state = .ok out) := by
  obtain ⟨htext, hfacts⟩ : normal.text = file.text ∧
      normalize file.facts = (normal.facts, none) := by
    cases hnormal : normalize file.facts with
    | mk facts clash =>
      simp only [SourceFile.normalize, hnormal, Prod.mk.injEq, Option.map_eq_none_iff] at h
      obtain ⟨rfl, rfl⟩ := h
      exact ⟨rfl, rfl⟩
  have hleads := normalize_leads hfacts
  have hsorted : normal.facts.Pairwise fun f g => f.start ≤ g.start := by
    refine hleads.imp fun hlead => ?_
    rcases hlead with hlt | ⟨heq, -⟩
    · exact UInt32.le_of_lt hlt
    · exact UInt32.le_of_eq heq
  have hiff : (∃ out, render e normal.text normal.facts state = .ok out) ↔
      Nests file.text.toList file.facts := by
    rw [render_ok_iff e normal.text normal.facts state, inOrder_of_sorted hsorted, htext]
    constructor
    · exact fun hfit => (hfit.nests hsorted).congr fun r hr => (mem_range_normalize hfacts r).2 hr
    · intro hnests
      exact (hnests.congr fun r hr => (mem_range_normalize hfacts r).1 hr).allFit hleads
  refine ⟨hiff, fun hrender => hiff.2 ?_, fun hwithin hplaced hmeet => hiff.2 ?_⟩
  · have hfit := (render_ok_iff e file.text file.facts state).1 hrender
    refine (hfit.nests (inOrder_sorted _)).congr fun r hr => ?_
    exact ((List.mergeSort_perm file.facts _).map Fact.range).mem_iff.2 hr
  · refine ⟨hwithin, fun f hf => by simpa [Misplaced] using hplaced f hf, ?_⟩
    rintro f hf g hg ⟨hlt, hopen, hstop⟩
    have hlt' := UInt32.lt_iff_toNat_lt.1 hlt
    have hg' : g.start.toNat ≤ g.stop := Nat.le_add_right _ _
    rcases hmeet f hf g hg with heq | hbefore | hbehind | ⟨-, hin⟩ | ⟨hin, -⟩
    · exact UInt32.ne_of_lt hlt heq
    · omega
    · omega
    · omega
    · exact UInt32.not_le.2 hlt hin

/-- Two styles of one range become one, and what ends at its end or is empty stays beside it. -/
theorem normalize_renders_merged :
    let p : TextSet := ⟨["p"], by decide⟩
    let q : TextSet := ⟨["q"], by decide⟩
    let file : SourceFile := ⟨"aü", [⟨1, 2, .localVariable "x"⟩, ⟨0, 3, .style p⟩,
      ⟨0, 0, .localVariable "y"⟩, ⟨0, 3, .style q⟩]⟩
    let normal : SourceFile := ⟨"aü", [⟨0, 0, .localVariable "y"⟩, ⟨0, 3, .style (p.union q)⟩,
      ⟨1, 2, .localVariable "x"⟩]⟩
    file.normalize = (normal, none) ∧
      ∃ out, render Node.emitter normal.text normal.facts () = .ok out := by
  intro p q file normal
  have h : file.normalize = (normal, none) := by cbv
  refine ⟨h, (normalize_renders Node.emitter () file normal h).1.2 ?_⟩
  refine ⟨?_, ?_, ?_⟩ <;> decide

end CrossRef.Markup
