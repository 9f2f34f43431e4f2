import CrossRef.Proofs.Markup.Html.Token
import CrossRef.Proofs.Markup.Replay

namespace CrossRef.Markup.Html

/-- What an element of the output belongs to. -/
inductive Origin
  | line (n : UInt32)
  | fact (fact : Fact)

namespace Origin

def tag (link : Binding → String) : Origin → Tag
  | line n => .ofLine n
  | fact f => .ofFact link f

def fact? : Origin → Option Fact
  | line _ => none
  | fact f => some f

end Origin

/-- A part of the output: a character of the text, or one of the tags of an element. -/
inductive Item
  | char (c : Char)
  | opening (origin : Origin)
  | closing (origin : Origin)

namespace Item

def written (link : Binding → String) : Item → List Char
  | char c => escapeChar c
  | opening origin => (origin.tag link).opening.toList
  | closing origin => (origin.tag link).closing.toList

def char? : Item → Option Char
  | char c => some c
  | opening _ => none
  | closing _ => none

def origin? : Item → Option Origin
  | char _ => none
  | opening origin => some origin
  | closing _ => none

end Item

def print (link : Binding → String) (items : List Item) : String :=
  String.ofList (items.flatMap (Item.written link))

namespace LineState

def anchorItems (s : LineState) : List Item :=
  if s.atStart then [.opening (.line s.line), .closing (.line s.line)] else []

def charItems : List Char → LineState → List Item
  | [], _ => []
  | c :: cs, s => s.anchorItems ++ .char c :: charItems cs (s.char c).2

end LineState

def itemEmitter : Emitter LineState (List Item) where
  text _ text s := (s.charItems text.toList, (s.chars text.toList).2)
  wrap fact children s :=
    (.opening (.fact fact) :: (children.flatten ++ [.closing (.fact fact)]), s)

/-- The parts of the output for a tree, the anchor of an empty last line behind them. -/
def itemsOf (nodes : List Node) : List Item :=
  let (items, s) := Node.listReplay itemEmitter nodes .first
  items.flatten ++ s.anchorItems

variable {link : Binding → String}

@[simp] theorem print_nil : print link [] = "" := rfl

@[simp] theorem print_append (items others : List Item) :
    print link (items ++ others) = print link items ++ print link others := by
  simp [print]

@[simp] theorem print_cons (item : Item) (items : List Item) :
    print link (item :: items) = String.ofList (item.written link) ++ print link items := by
  simp [print]

theorem print_flatten (itemss : List (List Item)) :
    print link itemss.flatten = String.join (itemss.map (print link)) := by
  induction itemss with
  | nil => rfl
  | cons items rest ih => rw [List.flatten_cons, print_append, ih, List.map_cons, String.join_cons]

theorem print_anchorItems (s : LineState) : print link s.anchorItems = s.anchor.1 := by
  unfold LineState.anchorItems LineState.anchor
  split
  · simp [Item.written, Origin.tag, Tag.around]
  · rfl

theorem print_charItems (cs : List Char) (s : LineState) :
    print link (s.charItems cs) = (s.chars cs).1 := by
  induction cs generalizing s with
  | nil => rfl
  | cons c cs ih =>
    rw [LineState.charItems, print_append, print_cons, print_anchorItems, ih]
    simp [LineState.chars, LineState.char, Item.written, String.append_assoc]

theorem listReplay_emitter (nodes : List Node) (s : LineState) :
    Node.listReplay (emitter link) nodes s =
      (Node.listReplay itemEmitter nodes s).map (List.map (print link)) id := by
  refine Node.listReplay_map (print link) ?_ ?_ nodes s
  · intro start content s
    exact Prod.ext (print_charItems content.toList s).symm rfl
  · intro fact children s
    refine Prod.ext ?_ rfl
    simp [emitter, itemEmitter, Tag.around, print_flatten, Item.written, Origin.tag,
      String.append_assoc]

/-- The output is what the emitter makes of the tree, with the anchor of an empty last line; there is
none where there is no tree. -/
theorem render_eq_replay (link : Binding → String) (text : String) (facts : List Fact) :
    render link text facts = (renderTree text facts).map fun nodes =>
      let (parts, s) := Node.listReplay (emitter link) nodes .first
      (finish (String.join parts) s).1 := by
  have hreplay := render_replay (emitter link) text facts .first
  unfold render
  cases htree : renderTree text facts with
  | error fault =>
    rw [htree] at hreplay
    obtain ⟨s, herror⟩ := hreplay
    rw [herror]
    rfl
  | ok nodes =>
    rw [htree] at hreplay
    simp only [hreplay]
    rfl

/-- The output is the print of the tree's parts. -/
theorem render_eq_print (link : Binding → String) (text : String) (facts : List Fact) :
    render link text facts =
      (renderTree text facts).map fun nodes => print link (itemsOf nodes) := by
  rw [render_eq_replay]
  congr 1
  funext nodes
  rw [listReplay_emitter]
  simp only [finish, Prod.map_fst, Prod.map_snd, id_eq, itemsOf, print_append, print_flatten,
    print_anchorItems]

end CrossRef.Markup.Html
