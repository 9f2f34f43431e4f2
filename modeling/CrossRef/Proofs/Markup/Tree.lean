import CrossRef.Proofs.Markup.Growth
import CrossRef.Proofs.Markup.Nesting
import CrossRef.Proofs.Markup.Outline

namespace CrossRef.Markup

open Node (listMarks listRuns listFacts listChars ListPlaced TextsApart)
open Text (size)

/-- A tree describes a text with facts on it. -/
structure Describes (text : List Char) (facts : List Fact) (nodes : List Node) : Prop where
  /-- The facts of the tree in pre-order are the given ones. -/
  facts_eq : (listMarks [] 0 [] nodes).map Mark.fact = facts
  /-- The texts of the tree from left to right make up the given one. -/
  text_eq : (listRuns [] nodes).flatMap (fun r => r.content.toList) = text
  /-- No text is empty, and each carries the number of bytes before it. -/
  runs : ∀ r ∈ listRuns [] nodes, r.content ≠ "" ∧ r.start = size r.before
  /-- No texts are neighbours, on whatever level. -/
  apart : TextsApart nodes ∧ ∀ m ∈ listMarks [] 0 [] nodes, TextsApart m.children
  /-- The text below a fact is its range of the text. -/
  ranges : ∀ m ∈ listMarks [] 0 [] nodes, size m.before = m.fact.start.toNat ∧
    size (listChars m.children) = m.fact.length.toNat ∧ m.before ++ listChars m.children <+: text
  /-- A fact lies below those before it that end behind its start, and below no other. -/
  below : ∀ (i j : Nat) (m m' : Mark), (listMarks [] 0 [] nodes)[i]? = some m →
    (listMarks [] 0 [] nodes)[j]? = some m' →
      (m'.Below m ↔ i < j ∧ m'.fact.start.toNat < m.fact.stop)

variable {cs : List Char} {facts : List Fact} {nodes : List Node}

theorem describes_of_placed (hplaced : ListPlaced (Text.size []) nodes)
    (hapart : TextsApart nodes) : Describes (listChars nodes) (listFacts nodes) nodes where
  facts_eq := Node.map_fact_listMarks [] 0 [] nodes
  text_eq := Node.flatMap_listRuns [] nodes
  runs := ListPlaced.runs hplaced
  apart := ⟨hapart, fun m hm => (ListPlaced.marks hplaced m hm).2.2.1⟩
  ranges := by
    intro m hm
    obtain ⟨hbefore, hsize, -, hpath⟩ := ListPlaced.marks hplaced m hm
    exact ⟨hbefore, hsize, hpath⟩
  below := by
    intro i j m m' hm hm'
    have hpair := List.pairwise_iff_getElem.1 (@ListPlaced.below [] 0 [] nodes hplaced)
    obtain ⟨hi, rfl⟩ := List.getElem?_eq_some_iff.1 hm
    obtain ⟨hj, rfl⟩ := List.getElem?_eq_some_iff.1 hm'
    rcases Nat.lt_trichotomy i j with hlt | rfl | hlt
    · obtain ⟨hpath, hback⟩ := hpair i j hi hj hlt
      rw [Mark.Below, hpath]
      constructor
      · exact fun h => ⟨hlt, h.1⟩
      · exact fun h => ⟨h.2, fun heq => hback (heq ▸ List.prefix_rfl)⟩
    · exact iff_of_false (fun h => h.2 rfl) (fun h => lt_irrefl _ h.1)
    · exact iff_of_false (fun h => (hpair j i hj hi hlt).2 h.1) (fun h => by omega)

theorem Describes.placed (h : Describes cs facts nodes) : ListPlaced 0 nodes := by
  have hmarks : ∀ m ∈ Node.listMarks [] 0 [] nodes, Text.size m.before = m.fact.start.toNat ∧
      Text.size (listChars m.children) = m.fact.length.toNat ∧ TextsApart m.children := by
    intro m hm
    obtain ⟨hbefore, hsize, -⟩ := h.ranges m hm
    exact ⟨hbefore, hsize, h.apart.2 m hm⟩
  have hbelow : (Node.listMarks [] 0 [] nodes).Pairwise fun m m' =>
      m'.Below m → m'.fact.start.toNat < m.fact.stop := by
    rw [List.pairwise_iff_getElem]
    intro i j hi hj _ hbelow
    exact ((h.below i j _ _ (List.getElem?_eq_getElem hi) (List.getElem?_eq_getElem hj)).1 hbelow).2
  exact Node.listPlaced_of_outline h.runs hmarks hbelow

/-- What is said of a tree, said of the offsets in it. -/
theorem describes_iff : Describes cs facts nodes ↔
    ListPlaced 0 nodes ∧ TextsApart nodes ∧ listFacts nodes = facts ∧ listChars nodes = cs := by
  constructor
  · intro h
    refine ⟨h.placed, h.apart.1, ?_, ?_⟩
    · rw [← h.facts_eq, Node.map_fact_listMarks]
    · rw [← h.text_eq, Node.flatMap_listRuns]
  · rintro ⟨hplaced, hapart, rfl, rfl⟩
    exact describes_of_placed hplaced hapart

/-- The facts of a tree fit into its text. -/
theorem Describes.allFit (h : Describes cs facts nodes) : AllFit cs facts := by
  obtain ⟨hplaced, -, hfacts, -⟩ := describes_iff.1 h
  rw [allFit_iff]
  constructor
  · intro f hf
    rw [← h.facts_eq] at hf
    obtain ⟨m, hm, rfl⟩ := List.mem_map.1 hf
    obtain ⟨hbefore, hsize, behind, hcs⟩ := h.ranges m hm
    have hstart : Text.IsBoundary cs m.fact.start.toNat :=
      ⟨m.before, listChars m.children ++ behind, by rw [← hcs, List.append_assoc], hbefore⟩
    have hstop : Text.IsBoundary cs m.fact.stop :=
      ⟨m.before ++ listChars m.children, behind, hcs.symm, by
        rw [Text.size_append, hbefore, hsize, Fact.stop]⟩
    exact ⟨hstop.le_size, by simp [Misplaced, hstart, hstop]⟩
  · rw [← hfacts]
    refine hplaced.nested.imp fun hnested hcross => ?_
    have := hnested hcross.1
    omega

/-- A text with facts has the tree that describes it, and no other; where there is none, no tree
does. -/
theorem renderTree_eq_ok_iff (text : String) (facts : List Fact) (nodes : List Node) :
    renderTree text facts = .ok nodes ↔ Describes text.toList (inOrder facts) nodes := by
  constructor
  · intro h
    exact describes_iff.2 (placed_of_renderTree h)
  · intro h
    obtain ⟨⟨nodes', state⟩, hrender⟩ := render_of_allFit Node.emitter text facts () h.allFit
    have htree : renderTree text facts = .ok nodes' := by
      rw [renderTree, hrender]
    obtain ⟨hplaced', hapart', hfacts', hchars'⟩ := placed_of_renderTree htree
    obtain ⟨hplaced, hapart, hfacts, hchars⟩ := describes_iff.1 h
    rw [htree, hplaced.unique hplaced' hapart hapart' (hfacts.trans hfacts'.symm)
      (hchars.trans hchars'.symm)]

end CrossRef.Markup
