import CrossRef.Proofs.Markup.Forest

namespace CrossRef.Markup

open Text (size)

/-- A fact of a tree. -/
structure Mark where
  /-- The child numbers on the way to its node. -/
  address : List Nat
  /-- The text of the tree before it. -/
  before : List Char
  fact : Fact
  children : List Node

/-- A text of a tree, with the text before it. -/
structure Run where
  before : List Char
  start : Nat
  content : String

def Mark.Below (m m' : Mark) : Prop := m'.address <+: m.address ∧ m'.address ≠ m.address

namespace Node

mutual

/-- The facts of a tree in pre-order. -/
def marks (address : List Nat) (before : List Char) : Node → List Mark
  | .text _ _ => []
  | .annotated fact children =>
    ⟨address, before, fact, children⟩ :: listMarks address 0 before children

def listMarks (parent : List Nat) : Nat → List Char → List Node → List Mark
  | _, _, [] => []
  | n, before, node :: rest =>
    node.marks (parent ++ [n]) before ++ listMarks parent (n + 1) (before ++ node.chars) rest

end

mutual

/-- The texts of a tree from left to right. -/
def runs (before : List Char) : Node → List Run
  | .text start content => [⟨before, start, content⟩]
  | .annotated _ children => listRuns before children

def listRuns : List Char → List Node → List Run
  | _, [] => []
  | before, node :: rest => node.runs before ++ listRuns (before ++ node.chars) rest

end

theorem map_fact_listMarks (parent : List Nat) (n : Nat) (before : List Char) (nodes : List Node) :
    (listMarks parent n before nodes).map Mark.fact = listFacts nodes := by
  induction nodes using forest_induction generalizing parent n before with
  | nil => rfl
  | text start content rest ih => simp [listMarks, marks, listFacts, facts, ih]
  | annotated fact children rest ih ih' => simp [listMarks, marks, listFacts, facts, ih, ih']

theorem flatMap_listRuns (before : List Char) (nodes : List Node) :
    (listRuns before nodes).flatMap (fun r => r.content.toList) = listChars nodes := by
  induction nodes using forest_induction generalizing before with
  | nil => rfl
  | text start content rest ih => simp [listRuns, runs, listChars, chars, ih]
  | annotated fact children rest ih ih' => simp [listRuns, runs, listChars, chars, ih, ih']

theorem address_of_mem_listMarks {parent : List Nat} {n : Nat} {before : List Char}
    {nodes : List Node} {m : Mark} (h : m ∈ listMarks parent n before nodes) :
    ∃ k tail, n ≤ k ∧ m.address = parent ++ k :: tail := by
  induction nodes using forest_induction generalizing parent n before with
  | nil => simp [listMarks] at h
  | text start content rest ih =>
    obtain ⟨k, tail, hk, haddress⟩ := ih (by simpa [listMarks, marks] using h)
    exact ⟨k, tail, by omega, haddress⟩
  | annotated fact children rest ih ih' =>
    simp only [listMarks, marks, List.cons_append, List.mem_cons, List.mem_append] at h
    rcases h with rfl | h | h
    · exact ⟨n, [], le_rfl, rfl⟩
    · obtain ⟨k, tail, -, haddress⟩ := ih h
      exact ⟨n, k :: tail, le_rfl, by simp [haddress]⟩
    · obtain ⟨k, tail, hk, haddress⟩ := ih' h
      exact ⟨k, tail, by omega, haddress⟩

/-- Nodes of different children of one node do not lie below one another. -/
theorem not_prefix_of_address {parent : List Nat} {n k : Nat} {tail tail' : List Nat}
    (hnk : n ≠ k) : ¬ parent ++ n :: tail <+: parent ++ k :: tail' := by
  rw [List.prefix_append_right_inj, List.cons_prefix_cons]
  exact fun h => hnk h.1

theorem ListPlaced.runs {before : List Char} {nodes : List Node}
    (h : ListPlaced (size before) nodes) :
    ∀ r ∈ listRuns before nodes, r.content ≠ "" ∧ r.start = size r.before := by
  induction nodes using forest_induction generalizing before with
  | nil => simp [listRuns]
  | text start content rest ih =>
    obtain ⟨⟨hstart, hcontent⟩, hrest⟩ := h
    rw [← Text.size_append] at hrest
    intro r hr
    rcases List.mem_cons.1 hr with rfl | hr
    · exact ⟨hcontent, hstart⟩
    · exact ih hrest r hr
  | annotated fact children rest ih ih' =>
    obtain ⟨⟨-, -, -, -, hchildren⟩, hrest⟩ := h
    rw [← Text.size_append] at hrest
    intro r hr
    rcases List.mem_append.1 hr with hr | hr
    · exact ih hchildren r hr
    · exact ih' hrest r hr

theorem ListPlaced.marks {parent : List Nat} {n : Nat} {before : List Char} {nodes : List Node}
    (h : ListPlaced (size before) nodes) :
    ∀ m ∈ listMarks parent n before nodes, size m.before = m.fact.start.toNat ∧
      size (listChars m.children) = m.fact.length.toNat ∧ TextsApart m.children ∧
      m.before ++ listChars m.children <+: before ++ listChars nodes := by
  induction nodes using forest_induction generalizing parent n before with
  | nil => simp [listMarks]
  | text start content rest ih =>
    obtain ⟨-, hrest⟩ := h
    rw [← Text.size_append] at hrest
    intro m hm
    have hmark := ih hrest m hm
    rwa [List.append_assoc] at hmark
  | annotated fact children rest ih ih' =>
    obtain ⟨⟨hstart, hsize, -, hapart, hchildren⟩, hrest⟩ := h
    rw [← Text.size_append] at hrest
    have hfirst : before ++ listChars children <+:
        before ++ listChars (.annotated fact children :: rest) := by
      rw [List.prefix_append_right_inj]
      exact List.prefix_append _ _
    intro m hm
    simp only [listMarks, Node.marks, List.cons_append, List.mem_cons, List.mem_append] at hm
    rcases hm with rfl | hm | hm
    · exact ⟨hstart.symm, hsize, hapart, hfirst⟩
    · obtain ⟨hbefore, hinner, hm, hpath⟩ := ih hchildren m hm
      exact ⟨hbefore, hinner, hm, hpath.trans hfirst⟩
    · have hmark := ih' hrest m hm
      rwa [List.append_assoc] at hmark

theorem ListPlaced.below {parent : List Nat} {n : Nat} {before : List Char} {nodes : List Node}
    (h : ListPlaced (size before) nodes) :
    (listMarks parent n before nodes).Pairwise fun m m' =>
      (m.address <+: m'.address ↔ m'.fact.start.toNat < m.fact.stop) ∧
      ¬ m'.address <+: m.address := by
  induction nodes using forest_induction generalizing parent n before with
  | nil => exact .nil
  | text start content rest ih =>
    obtain ⟨-, hrest⟩ := h
    rw [← Text.size_append] at hrest
    exact ih hrest
  | annotated fact children rest ih ih' =>
    obtain ⟨⟨hstart, hsize, hbelow, -, hchildren⟩, hrest⟩ := h
    have hmem : ∀ {p k b ns m}, m ∈ listMarks p k b ns → m.fact ∈ listFacts ns := by
      intro p k b ns m hm
      rw [← map_fact_listMarks p k b]
      exact List.mem_map_of_mem hm
    have hstop : fact.stop = size before + size (listChars children) := by
      rw [Fact.stop, hstart, hsize]
    have hbehind : ∀ {p k b m}, m ∈ listMarks p k b rest → fact.stop ≤ m.fact.start.toNat := by
      intro p k b m hm
      have := (hrest.within m.fact (hmem hm)).1
      simp only [chars] at this
      omega
    rw [← Text.size_append] at hrest
    simp only [listMarks, Node.marks, List.cons_append, List.pairwise_cons, List.mem_append]
    refine ⟨?_, List.pairwise_append.2 ⟨ih hchildren, ih' hrest, ?_⟩⟩
    · rintro m (hm | hm)
      · obtain ⟨k, tail, -, haddress⟩ := address_of_mem_listMarks hm
        simp only [haddress, List.prefix_append, hbelow m.fact (hmem hm), true_and]
        intro hpath
        simpa using hpath.length_le
      · obtain ⟨k, tail, hk, haddress⟩ := address_of_mem_listMarks hm
        have := hbehind hm
        rw [haddress]
        refine ⟨iff_of_false (not_prefix_of_address (by omega)) (by omega), ?_⟩
        exact not_prefix_of_address (by omega)
    · intro m hm m' hm'
      obtain ⟨k, tail, -, haddress⟩ := address_of_mem_listMarks hm
      obtain ⟨k', tail', hk', haddress'⟩ := address_of_mem_listMarks hm'
      have hinner := (hchildren.within m.fact (hmem hm)).2
      have := hbehind hm'
      rw [haddress, haddress', List.append_assoc, List.singleton_append]
      refine ⟨iff_of_false (not_prefix_of_address (by omega)) (by omega), ?_⟩
      exact not_prefix_of_address (by omega)

/-- Where the outline says so, the tree stands as its offsets say. -/
theorem listPlaced_of_outline {parent : List Nat} {n : Nat} {before : List Char}
    {nodes : List Node}
    (hruns : ∀ r ∈ listRuns before nodes, r.content ≠ "" ∧ r.start = size r.before)
    (hmarks : ∀ m ∈ listMarks parent n before nodes, size m.before = m.fact.start.toNat ∧
      size (listChars m.children) = m.fact.length.toNat ∧ TextsApart m.children)
    (hbelow : (listMarks parent n before nodes).Pairwise fun m m' =>
      m'.Below m → m'.fact.start.toNat < m.fact.stop) :
    ListPlaced (size before) nodes := by
  induction nodes using forest_induction generalizing parent n before with
  | nil => trivial
  | text start content rest ih =>
    simp only [listRuns, Node.runs, List.singleton_append, List.forall_mem_cons] at hruns
    obtain ⟨⟨hcontent, hstart⟩, hruns⟩ := hruns
    refine ⟨⟨hstart, hcontent⟩, ?_⟩
    rw [← Text.size_append]
    exact ih hruns hmarks hbelow
  | annotated fact children rest ih ih' =>
    simp only [listRuns, Node.runs, List.forall_mem_append] at hruns
    simp only [listMarks, Node.marks, List.cons_append, List.forall_mem_cons,
      List.forall_mem_append] at hmarks
    simp only [listMarks, Node.marks, List.cons_append, List.pairwise_cons,
      List.pairwise_append, List.forall_mem_append] at hbelow
    obtain ⟨⟨hbefore, hsize, hapart⟩, hchildren, hrest⟩ := hmarks
    obtain ⟨⟨hunder, -⟩, hbelow, hbelow', -⟩ := hbelow
    refine ⟨⟨hbefore.symm, hsize, ?_, hapart, ih hruns.1 hchildren hbelow⟩, ?_⟩
    · intro f hf
      rw [← map_fact_listMarks (parent ++ [n]) 0 before] at hf
      obtain ⟨m, hm, rfl⟩ := List.mem_map.1 hf
      obtain ⟨k, tail, -, haddress⟩ := address_of_mem_listMarks hm
      exact hunder m hm ⟨by simp [haddress], by simp [haddress]⟩
    · rw [← Text.size_append]
      exact ih' hruns.2 hrest hbelow'

end Node

end CrossRef.Markup
