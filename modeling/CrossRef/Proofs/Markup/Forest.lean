import CrossRef.Markup.Tree
import CrossRef.Proofs.Text.Boundary
import Mathlib.Data.List.Chain
import Mathlib.Order.Nat

namespace CrossRef.Markup

open Text (size)

namespace Node

/-- Over the nodes of a level from left to right, and over the levels below each of them. -/
@[elab_as_elim]
theorem forest_induction {motive : List Node → Prop} (nil : motive [])
    (text : ∀ start content rest, motive rest → motive (.text start content :: rest))
    (annotated : ∀ fact children rest, motive children → motive rest →
      motive (.annotated fact children :: rest)) : ∀ nodes, motive nodes
  | [] => nil
  | .text start content :: rest =>
    text start content rest (forest_induction nil text annotated rest)
  | .annotated fact children :: rest =>
    annotated fact children rest (forest_induction nil text annotated children)
      (forest_induction nil text annotated rest)

@[elab_as_elim]
theorem tree_induction {motive : Node → Prop} (text : ∀ start content, motive (.text start content))
    (annotated : ∀ fact children, (∀ child ∈ children, motive child) →
      motive (.annotated fact children)) (node : Node) : motive node := by
  have hall : ∀ nodes : List Node, ∀ node ∈ nodes, motive node := by
    intro nodes
    induction nodes using forest_induction with
    | nil => simp
    | text start content rest ih => exact List.forall_mem_cons.2 ⟨text start content, ih⟩
    | annotated fact children rest ih ih' =>
      exact List.forall_mem_cons.2 ⟨annotated fact children ih, ih'⟩
  exact hall [node] node List.mem_cons_self

def isText : Node → Bool
  | .text _ _ => true
  | .annotated _ _ => false

mutual

/-- The facts of a tree, each before those it encloses. -/
def facts : Node → List Fact
  | .text _ _ => []
  | .annotated fact children => fact :: listFacts children

def listFacts : List Node → List Fact
  | [] => []
  | node :: rest => node.facts ++ listFacts rest

end

mutual

/-- The text of a tree. -/
def chars : Node → List Char
  | .text _ content => content.toList
  | .annotated _ children => listChars children

def listChars : List Node → List Char
  | [] => []
  | node :: rest => node.chars ++ listChars rest

end

theorem listFacts_append (as bs : List Node) :
    listFacts (as ++ bs) = listFacts as ++ listFacts bs := by
  induction as with
  | nil => rfl
  | cons node rest ih => simp [listFacts, ih]

theorem listChars_append (as bs : List Node) :
    listChars (as ++ bs) = listChars as ++ listChars bs := by
  induction as with
  | nil => rfl
  | cons node rest ih => simp [listChars, ih]

/-- No two texts stand side by side. -/
def TextsApart (nodes : List Node) : Prop := nodes.IsChain fun a b => ¬ (a.isText ∧ b.isText)

mutual

/-- A tree that lies over the text from `pos` on: texts are not empty, facts span what is below
them, and no fact below begins where the one above ends. -/
def Placed (pos : Nat) : Node → Prop
  | .text start content => start = pos ∧ content ≠ ""
  | .annotated fact children =>
    fact.start.toNat = pos ∧ size (listChars children) = fact.length.toNat ∧
      (∀ f ∈ listFacts children, f.start.toNat < fact.stop) ∧ TextsApart children ∧
      ListPlaced pos children

def ListPlaced : Nat → List Node → Prop
  | _, [] => True
  | pos, node :: rest => node.Placed pos ∧ ListPlaced (pos + size node.chars) rest

end

theorem listPlaced_append {pos : Nat} {as bs : List Node} :
    ListPlaced pos (as ++ bs) ↔
      ListPlaced pos as ∧ ListPlaced (pos + size (listChars as)) bs := by
  induction as generalizing pos with
  | nil => simp [ListPlaced, listChars]
  | cons node rest ih => simp [ListPlaced, listChars, ih, and_assoc, Nat.add_assoc]

theorem ListPlaced.within {pos : Nat} {nodes : List Node} (h : ListPlaced pos nodes) :
    ∀ f ∈ listFacts nodes, pos ≤ f.start.toNat ∧ f.stop ≤ pos + size (listChars nodes) := by
  induction nodes using forest_induction generalizing pos with
  | nil => simp [listFacts]
  | text start content rest ih =>
    intro f hf
    obtain ⟨hpos, hstop⟩ := ih h.2 f (by simpa [listFacts, facts] using hf)
    simp only [listChars, chars, Text.size_append] at *
    omega
  | annotated fact children rest ih ih' =>
    obtain ⟨⟨hstart, hsize, -, -, hchildren⟩, hrest⟩ := h
    have hstop : fact.stop = pos + size (listChars children) := by
      rw [Fact.stop, hstart, hsize]
    intro f hf
    simp only [listFacts, facts, List.cons_append, List.mem_cons, List.mem_append] at hf
    simp only [listChars, chars, Text.size_append] at *
    rcases hf with rfl | hf | hf
    · omega
    · have := ih hchildren f hf
      omega
    · have := ih' hrest f hf
      omega

/-- A fact behind another one lies behind its end or within it. -/
theorem ListPlaced.nested {pos : Nat} {nodes : List Node} (h : ListPlaced pos nodes) :
    (listFacts nodes).Pairwise fun f g => g.start.toNat < f.stop → g.stop ≤ f.stop := by
  induction nodes using forest_induction generalizing pos with
  | nil => exact .nil
  | text start content rest ih => simpa [listFacts, facts] using ih h.2
  | annotated fact children rest ih ih' =>
    obtain ⟨⟨hstart, hsize, -, -, hchildren⟩, hrest⟩ := h
    have hstop : fact.stop = pos + size (listChars children) := by
      rw [Fact.stop, hstart, hsize]
    have hbehind : ∀ g ∈ listFacts rest, fact.stop ≤ g.start.toNat := by
      intro g hg
      have := (hrest.within g hg).1
      simp only [chars] at this
      omega
    have hbelow : ∀ f ∈ listFacts children, f.stop ≤ fact.stop := by
      intro f hf
      have := (hchildren.within f hf).2
      omega
    simp only [listFacts, facts, List.cons_append, List.pairwise_cons, List.mem_append]
    refine ⟨?_, List.pairwise_append.2 ⟨ih hchildren, ih' hrest, ?_⟩⟩
    · rintro g (hg | hg) hlt
      · exact hbelow g hg
      · have := hbehind g hg
        omega
    · intro f hf g hg hlt
      have := hbelow f hf
      have := hbehind g hg
      omega

theorem append_inj_of_forall {α : Type} {p : α → Prop} {as bs as' bs' : List α}
    (h : as ++ bs = as' ++ bs') (has : ∀ a ∈ as, p a) (has' : ∀ a ∈ as', p a)
    (hbs : ∀ b ∈ bs, ¬ p b) (hbs' : ∀ b ∈ bs', ¬ p b) : as = as' ∧ bs = bs' := by
  rcases List.append_eq_append_iff.1 h with ⟨xs, rfl, rfl⟩ | ⟨xs, rfl, rfl⟩
  · cases xs with
    | nil => simp
    | cons x xs => exact absurd (has' x (by simp)) (hbs x (by simp))
  · cases xs with
    | nil => simp
    | cons x xs => exact absurd (has x (by simp)) (hbs' x (by simp))

theorem toList_ne_nil {content : String} (h : content ≠ "") : content.toList ≠ [] := by
  simpa using h

theorem ListPlaced.text_end {pos start : Nat} {content : String} {rest : List Node}
    (h : ListPlaced pos (.text start content :: rest))
    (hapart : TextsApart (.text start content :: rest)) :
    pos + size content.toList =
      ((listFacts rest).head?.map fun f => f.start.toNat).getD
        (pos + size (content.toList ++ listChars rest)) := by
  cases rest with
  | nil => simp [listFacts, listChars]
  | cons node rest =>
    cases node with
    | text start' content' => simp [TextsApart, isText] at hapart
    | annotated fact children =>
      obtain ⟨-, ⟨hstart, -⟩, -⟩ := h
      simpa [listFacts, facts, chars] using hstart.symm

theorem ListPlaced.facts_ne {pos start : Nat} {content : String} {fact : Fact}
    {children rest rest' : List Node} (h : ListPlaced pos (.text start content :: rest))
    (h' : ListPlaced pos (.annotated fact children :: rest')) :
    listFacts rest ≠ fact :: (listFacts children ++ listFacts rest') := by
  intro hfacts
  obtain ⟨⟨-, hcontent⟩, hrest⟩ := h
  obtain ⟨⟨hstart, -⟩, -⟩ := h'
  have hpos := (hrest.within fact (by simp [hfacts])).1
  have hsize := mt Text.size_eq_zero.1 (toList_ne_nil hcontent)
  simp only [chars] at hpos
  omega

/-- Of a text and its facts there is one tree at most. -/
theorem ListPlaced.unique {pos : Nat} {as bs : List Node} (ha : ListPlaced pos as)
    (hb : ListPlaced pos bs) (hta : TextsApart as) (htb : TextsApart bs)
    (hfacts : listFacts as = listFacts bs) (hchars : listChars as = listChars bs) : as = bs := by
  induction as using forest_induction generalizing pos bs with
  | nil =>
    cases bs with
    | nil => rfl
    | cons node rest =>
      cases node with
      | text start content =>
        have hne := toList_ne_nil hb.1.2
        simp [listChars, chars] at hchars
        exact absurd hchars.1 hb.1.2
      | annotated fact children => simp [listFacts, facts] at hfacts
  | text start content rest ih =>
    cases bs with
    | nil =>
      simp [listChars, chars] at hchars
      exact absurd hchars.1 ha.1.2
    | cons node rest' =>
      simp only [listFacts, facts, List.nil_append, listChars, chars] at hfacts hchars
      cases node with
      | text start' content' =>
        simp only [facts, List.nil_append, chars] at hfacts hchars
        have hsize : size content.toList = size content'.toList := by
          have hend := ha.text_end hta
          have hend' := hb.text_end htb
          rw [hfacts, hchars, ← hend'] at hend
          omega
        obtain ⟨hcontent, hrest⟩ := Text.eq_of_size_eq hchars hsize
        obtain rfl := String.toList_inj.1 hcontent
        obtain rfl : start = start' := ha.1.1.trans hb.1.1.symm
        rw [ih ha.2 hb.2 hta.tail htb.tail hfacts hrest]
      | annotated fact children =>
        exact absurd hfacts (ha.facts_ne hb)
  | annotated fact children rest ih ih' =>
    cases bs with
    | nil => simp [listFacts, facts] at hfacts
    | cons node rest' =>
      simp only [listFacts, facts, listChars, chars, List.cons_append] at hfacts hchars
      cases node with
      | text start content => exact absurd hfacts.symm (hb.facts_ne ha)
      | annotated fact' children' =>
        simp only [facts, List.cons_append, List.cons.injEq, chars] at hfacts hchars
        obtain ⟨rfl, hfacts⟩ := hfacts
        obtain ⟨⟨hstart, hsize, hbelow, hapart, hchildren⟩, hrest⟩ := ha
        obtain ⟨⟨-, hsize', hbelow', hapart', hchildren'⟩, hrest'⟩ := hb
        have hbehind : ∀ {ns ms : List Node}, size (listChars ns) = fact.length.toNat →
            ListPlaced (pos + size (listChars ns)) ms →
              ∀ f ∈ listFacts ms, ¬ f.start.toNat < fact.stop := by
          intro ns ms hns hms f hf
          have := (hms.within f hf).1
          rw [Fact.stop]
          omega
        obtain ⟨hfc, hfr⟩ := append_inj_of_forall hfacts hbelow hbelow' (hbehind hsize hrest)
          (hbehind hsize' hrest')
        obtain ⟨hcc, hcr⟩ := Text.eq_of_size_eq hchars (hsize.trans hsize'.symm)
        rw [ih hchildren hchildren' hapart hapart' hfc hcc]
        simp only [chars, hcc] at hrest hrest'
        rw [ih' hrest hrest' hta.tail htb.tail hfr hcr]

end Node

end CrossRef.Markup
