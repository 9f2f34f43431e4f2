import CrossRef.Proofs.Markup.Html.Reading
import CrossRef.Proofs.Markup.Outline

namespace CrossRef.Markup.Html

open Node (listReplay listChars listFacts listMarks)

variable {link : Binding → String}

theorem append_eq_append_cons {α : Type} {as bs xs ys : List α} {a : α}
    (h : as ++ bs = xs ++ a :: ys) :
    (∃ zs, as = xs ++ a :: zs) ∨ ∃ zs, xs = as ++ zs ∧ bs = zs ++ a :: ys := by
  rcases List.append_eq_append_iff.1 h with ⟨zs, hxs, hbs⟩ | ⟨zs, has, hys⟩
  · exact .inr ⟨zs, hxs, hbs⟩
  · cases zs with
    | nil => exact .inr ⟨[], by simpa using has.symm, hys.symm⟩
    | cons z zs =>
      obtain ⟨rfl, -⟩ := List.cons.inj hys
      exact .inl ⟨zs, has⟩

def Origin.line? : Origin → Option UInt32
  | line n => some n
  | fact _ => none

namespace Item

def line? (item : Item) : Option UInt32 := item.origin?.bind Origin.line?

def fact? (item : Item) : Option Fact := item.origin?.bind Origin.fact?

/-- Whether a part is none of the tags of a fact. -/
def isBare : Item → Bool
  | char _ => true
  | opening origin => origin.fact?.isNone
  | closing origin => origin.fact?.isNone

end Item

theorem filterMap_bare {β : Type} {f : Item → Option β}
    (h : ∀ item, item.isBare = false → f item = none) (items : List Item) :
    (items.filter Item.isBare).filterMap f = items.filterMap f := by
  rw [List.filterMap_filter]
  apply List.filterMap_congr
  intro item _
  cases hitem : item.isBare with
  | true => simp
  | false => simp [h item hitem]

theorem lines_bare (items : List Item) :
    (items.filter Item.isBare).filterMap Item.line? = items.filterMap Item.line? := by
  refine filterMap_bare (fun item h => ?_) items
  cases item with
  | opening origin => cases origin <;> simp_all [Item.isBare, Item.line?, Item.origin?,
      Origin.fact?, Origin.line?]
  | _ => rfl

theorem chars_bare (items : List Item) :
    (items.filter Item.isBare).filterMap Item.char? = items.filterMap Item.char? := by
  refine filterMap_bare (fun item h => ?_) items
  cases item with
  | char c => simp [Item.isBare] at h
  | _ => rfl

namespace LineState

variable (s : LineState)

/-- The number of anchors that are due. -/
def due : Nat := if s.atStart then 1 else 0

/-- The numbers of the next `k` anchors. -/
def lines (k : Nat) : List UInt32 := (List.range k).map fun i => s.line + UInt32.ofNat i

/-- The parts that a text alone is written in, and the anchor that is due behind it. -/
def bareItems (cs : List Char) : List Item := s.charItems cs ++ (s.chars cs).2.anchorItems

theorem bareItems_nil : s.bareItems [] = s.anchorItems := rfl

theorem bareItems_cons (c : Char) (cs : List Char) :
    s.bareItems (c :: cs) = s.anchorItems ++ .char c :: (s.char c).2.bareItems cs := by
  simp [bareItems, charItems, chars]

theorem chars_append (as bs : List Char) :
    (s.chars (as ++ bs)).2 = ((s.chars as).2.chars bs).2 := by
  induction as generalizing s with
  | nil => rfl
  | cons c as ih => exact ih _

theorem charItems_append (as bs : List Char) :
    s.charItems (as ++ bs) = s.charItems as ++ (s.chars as).2.charItems bs := by
  induction as generalizing s with
  | nil => rfl
  | cons c as ih =>
    rw [List.cons_append, charItems, charItems, ih, List.append_assoc, List.cons_append]
    rfl

theorem lines_anchorItems : s.anchorItems.filterMap Item.line? = s.lines s.due := by
  unfold anchorItems due lines
  split <;> simp [Item.line?, Item.origin?, Origin.line?, List.filterMap_cons]

theorem lines_add (j k : Nat) {t : LineState} (ht : t.line = s.line + UInt32.ofNat j) :
    s.lines (j + k) = s.lines j ++ t.lines k := by
  rw [lines, lines, lines, List.range_add, List.map_append, List.map_map, ht]
  congr 1
  apply List.map_congr_left
  intro i _
  simp [UInt32.ofNat_add, UInt32.add_assoc]

theorem line_char (c : Char) : (s.char c).2.line = s.line + UInt32.ofNat s.due := by
  unfold char anchor due
  cases s.atStart <;> by_cases hc : c = '\n' <;> simp [hc]

theorem due_char (c : Char) : (s.char c).2.due = if c = '\n' then 1 else 0 := by
  unfold char anchor due
  cases h : s.atStart <;> by_cases hc : c = '\n' <;> simp [hc, h]

/-- A text alone has an anchor that is due and one more for each of its newlines. -/
theorem lines_bareItems (cs : List Char) :
    (s.bareItems cs).filterMap Item.line? = s.lines (s.due + cs.count '\n') := by
  induction cs generalizing s with
  | nil => exact s.lines_anchorItems
  | cons c cs ih =>
    have hcount : s.due + (c :: cs).count '\n' =
        s.due + ((s.char c).2.due + cs.count '\n') := by
      rw [List.count_cons, due_char, Nat.add_comm (cs.count '\n')]
      simp
    rw [bareItems_cons, List.filterMap_append, lines_anchorItems,
      List.filterMap_cons_none (by rfl), ih, hcount]
    exact (s.lines_add _ _ (s.line_char c)).symm

theorem char_notin_anchorItems (c : Char) : .char c ∉ s.anchorItems := by
  unfold anchorItems
  split <;> simp

/-- What stands in front of a character is what the text before it is written in. -/
theorem front_of_bareItems {cs : List Char} {front back : List Item} {c : Char}
    (h : s.bareItems cs = front ++ .char c :: back) :
    front = s.bareItems (front.filterMap Item.char?) := by
  have hanchor := s.char_notin_anchorItems c
  induction cs generalizing s front with
  | nil =>
    rw [bareItems_nil] at h
    exact absurd (h ▸ List.mem_append_right front List.mem_cons_self) hanchor
  | cons d cs ih =>
    have hcarries : Carries (fun _ => "") s.anchorItems [] [] := Carries.anchorItems s
    have hchars := hcarries.chars
    rw [bareItems_cons] at h
    rcases append_eq_append_cons h with ⟨items, hitems⟩ | ⟨items, rfl, hitems⟩
    · exact absurd (hitems ▸ List.mem_append_right front List.mem_cons_self) hanchor
    · cases items with
      | nil => rw [List.append_nil, hchars, bareItems_nil]
      | cons item items =>
        obtain ⟨rfl, hbehind⟩ := List.cons.inj hitems
        have hnext := ih (s.char d).2 hbehind ((s.char d).2.char_notin_anchorItems c)
        rw [List.filterMap_append, hchars, List.nil_append, List.filterMap_cons_some (by rfl),
          bareItems_cons, ← hnext]

end LineState

theorem itemsOf_eq (nodes : List Node) :
    itemsOf nodes = (listReplay itemEmitter nodes .first).1.flatten ++
      (listReplay itemEmitter nodes .first).2.anchorItems := rfl

theorem filter_anchorItems (s : LineState) :
    s.anchorItems.filter Item.isBare = s.anchorItems := by
  unfold LineState.anchorItems
  split <;> simp [Item.isBare, Origin.fact?]

theorem filter_charItems (cs : List Char) (s : LineState) :
    (s.charItems cs).filter Item.isBare = s.charItems cs := by
  induction cs generalizing s with
  | nil => rfl
  | cons c cs ih =>
    rw [LineState.charItems, List.filter_append, filter_anchorItems,
      List.filter_cons_of_pos (by rfl), ih]

section Parts

variable (s : LineState) (rest : List Node)

theorem parts_text (start : Nat) (content : String) :
    (listReplay itemEmitter (.text start content :: rest) s).1.flatten =
      s.charItems content.toList ++
        (listReplay itemEmitter rest (s.chars content.toList).2).1.flatten := by
  simp [listReplay, Node.replay, itemEmitter]

theorem parts_annotated (fact : Fact) (children : List Node) :
    (listReplay itemEmitter (.annotated fact children :: rest) s).1.flatten =
      .opening (.fact fact) :: ((listReplay itemEmitter children s).1.flatten ++
        .closing (.fact fact) ::
          (listReplay itemEmitter rest (listReplay itemEmitter children s).2).1.flatten) := by
  simp [listReplay, Node.replay, itemEmitter]

end Parts

/-- Whatever facts cut a text, without their tags it is written as the text alone. -/
theorem filter_listReplay (nodes : List Node) (s : LineState) :
    (listReplay itemEmitter nodes s).1.flatten.filter Item.isBare = s.charItems (listChars nodes) ∧
      (listReplay itemEmitter nodes s).2 = (s.chars (listChars nodes)).2 := by
  induction nodes using Node.forest_induction generalizing s with
  | nil => exact ⟨rfl, rfl⟩
  | text start content rest ih =>
    obtain ⟨hrest, hstate⟩ := ih (s.chars content.toList).2
    rw [parts_text, List.filter_append, filter_charItems, hrest, listChars, Node.chars,
      LineState.charItems_append, LineState.chars_append]
    exact ⟨rfl, hstate⟩
  | annotated fact children rest ih ih' =>
    obtain ⟨hchildren, hinner⟩ := ih s
    obtain ⟨hrest, hstate⟩ := ih' (listReplay itemEmitter children s).2
    rw [parts_annotated, List.filter_cons_of_neg (by simp [Item.isBare, Origin.fact?]),
      List.filter_append, List.filter_cons_of_neg (by simp [Item.isBare, Origin.fact?]), hchildren,
      hrest, listChars, Node.chars, LineState.charItems_append, LineState.chars_append, ← hinner]
    exact ⟨rfl, hstate⟩

theorem filter_itemsOf (nodes : List Node) :
    (itemsOf nodes).filter Item.isBare = LineState.first.bareItems (listChars nodes) := by
  obtain ⟨hitems, hstate⟩ := filter_listReplay nodes .first
  rw [itemsOf_eq, List.filter_append, hitems, hstate, filter_anchorItems, LineState.bareItems]

theorem itemsOf_of_nofacts {nodes : List Node} (h : listFacts nodes = []) :
    itemsOf nodes = LineState.first.bareItems (listChars nodes) := by
  have hbare : ∀ s, ∀ item ∈ (listReplay itemEmitter nodes s).1.flatten, item.isBare = true := by
    induction nodes using Node.forest_induction with
    | nil => simp [listReplay]
    | text start content rest ih =>
      intro s
      rw [parts_text, List.forall_mem_append]
      exact ⟨List.filter_eq_self.1 (filter_charItems _ _), ih h _⟩
    | annotated fact children rest => simp [listFacts, Node.facts] at h
  rw [← filter_itemsOf, List.filter_eq_self.2]
  intro item hitem
  rw [itemsOf_eq] at hitem
  rcases List.mem_append.1 hitem with hitem | hitem
  · exact hbare _ item hitem
  · exact List.filter_eq_self.1 (filter_anchorItems _) item hitem

theorem lines_itemsOf (nodes : List Node) : (itemsOf nodes).filterMap Item.line? =
    LineState.first.lines (1 + (listChars nodes).count '\n') := by
  rw [← lines_bare, filter_itemsOf, LineState.lines_bareItems]
  rfl

/-- In front of a character stand the anchors up to that of its line. -/
theorem lines_front {nodes : List Node} {front back : List Item} {c : Char}
    (h : itemsOf nodes = front ++ .char c :: back) : front.filterMap Item.line? =
      LineState.first.lines (1 + (front.filterMap Item.char?).count '\n') := by
  have hbare := filter_itemsOf nodes
  rw [h, List.filter_append, List.filter_cons_of_pos (by rfl)] at hbare
  have hfront := LineState.front_of_bareItems _ hbare.symm
  rw [chars_bare] at hfront
  rw [← lines_bare, hfront, LineState.lines_bareItems]
  rfl

section Carried

variable {items : List Item} {cs : List Char} {facts : List Fact}

theorem Carries.facts_eq (h : Carries link items cs facts) :
    items.filterMap Item.fact? = facts := by
  rw [← h.facts, List.filterMap_filterMap]
  rfl

end Carried

/-- Where the element of a fact stands among the parts. -/
theorem replay_mark {nodes : List Node} (s : LineState) {parent : List Nat} {n : Nat}
    {before : List Char} {earlier later : List Mark} {m : Mark}
    (h : listMarks parent n before nodes = earlier ++ m :: later) :
    ∃ front inner back, (listReplay itemEmitter nodes s).1.flatten =
        front ++ .opening (.fact m.fact) :: ((listReplay itemEmitter m.children inner).1.flatten ++
          .closing (.fact m.fact) :: back) ∧
      front.filterMap Item.fact? = earlier.map Mark.fact ∧
      before ++ front.filterMap Item.char? = m.before := by
  have hcarries : ∀ nodes s, Carries (fun _ => "") (listReplay itemEmitter nodes s).1.flatten
      (listChars nodes) (listFacts nodes) := Carries.listReplay
  induction nodes using Node.forest_induction generalizing s parent n before earlier later with
  | nil => simp [listMarks] at h
  | text start content rest ih =>
    obtain ⟨front, inner, back, hparts, hfacts, hbefore⟩ := ih (s.chars content.toList).2 h
    have htext : Carries (fun _ => "") (s.charItems content.toList) content.toList [] :=
      Carries.charItems _ _
    refine ⟨s.charItems content.toList ++ front, inner, back, ?_, ?_, ?_⟩
    · rw [parts_text, hparts, List.append_assoc]
    · rw [List.filterMap_append, htext.facts_eq, List.nil_append, hfacts]
    · rw [List.filterMap_append, htext.chars, ← List.append_assoc]
      exact hbefore
  | annotated fact children rest ih ih' =>
    rw [listMarks, Node.marks, List.cons_append] at h
    cases earlier with
    | nil =>
      obtain ⟨rfl, -⟩ := List.cons.inj h
      exact ⟨[], s, _, parts_annotated s rest fact children, rfl, List.append_nil _⟩
    | cons first earlier =>
      obtain ⟨rfl, hmarks⟩ := List.cons.inj h
      rw [parts_annotated]
      rcases append_eq_append_cons hmarks with ⟨inside, hinside⟩ | ⟨behind, rfl, hbehind⟩
      · obtain ⟨front, inner, back, hparts, hfacts, hbefore⟩ := ih s hinside
        refine ⟨.opening (.fact fact) :: front, inner, back ++ .closing (.fact fact) ::
          (listReplay itemEmitter rest (listReplay itemEmitter children s).2).1.flatten, ?_, ?_,
          hbefore⟩
        · rw [hparts]
          simp only [List.cons_append, List.append_assoc]
        · rw [List.filterMap_cons_some (by rfl), hfacts]
          rfl
      · obtain ⟨front, inner, back, hparts, hfacts, hbefore⟩ :=
          ih' (listReplay itemEmitter children s).2 hbehind
        have hchildren := hcarries children s
        refine ⟨.opening (.fact fact) :: ((listReplay itemEmitter children s).1.flatten ++
          .closing (.fact fact) :: front), inner, back, ?_, ?_, ?_⟩
        · rw [hparts]
          simp only [List.cons_append, List.append_assoc]
        · rw [List.filterMap_cons_some (by rfl), List.filterMap_append, hchildren.facts_eq,
            List.filterMap_cons_none (by rfl), hfacts, List.map_cons, List.map_append,
            Node.map_fact_listMarks]
        · rw [List.filterMap_cons_none (by rfl), List.filterMap_append, hchildren.chars,
            List.filterMap_cons_none (by rfl), ← List.append_assoc]
          exact hbefore

theorem exists_front {items : List Item} {before behind : List Char} {c : Char}
    (h : items.filterMap Item.char? = before ++ c :: behind) :
    ∃ front back, items = front ++ .char c :: back ∧ front.filterMap Item.char? = before := by
  obtain ⟨front, items', rfl, hfront, hitems'⟩ := List.filterMap_eq_append_iff.1 h
  obtain ⟨lead, item, back, rfl, hlead, hitem, -⟩ := List.filterMap_eq_cons_iff.1 hitems'
  have hchar : item = .char c := by
    cases item with
    | char d => exact congrArg Item.char (Option.some.inj hitem)
    | _ => simp [Item.char?] at hitem
  refine ⟨front ++ lead, back, by rw [hchar, List.append_assoc], ?_⟩
  rw [List.filterMap_append, hfront, List.filterMap_eq_nil_iff.2 hlead, List.append_nil]

/-- The element of a fact that is not empty: its first character stands where the fact begins, with
at most an anchor in front of it. -/
theorem exists_element (link : Binding → String) {nodes : List Node} {earlier later : List Fact}
    {fact : Fact} (hplaced : Node.ListPlaced (Text.size []) nodes)
    (hfacts : listFacts nodes = earlier ++ fact :: later) (hlength : fact.length ≠ 0) :
    ∃ front lead c rest back,
      itemsOf nodes = front ++ .opening (.fact fact) ::
        (lead ++ .char c :: (rest ++ .closing (.fact fact) :: back)) ∧
      front.filterMap Item.fact? = earlier ∧
      Text.size (front.filterMap Item.char?) = fact.start.toNat ∧
      lead.filterMap Item.char? = [] ∧
      balanced [] ((lead ++ .char c :: rest).filterMap (Item.bracket? link)) = true := by
  have hmarks := (Node.map_fact_listMarks [] 0 [] nodes).trans hfacts
  obtain ⟨marks, marks', hsplit, rfl, hmarks'⟩ := List.map_eq_append_iff.1 hmarks
  obtain ⟨m, later, rfl, rfl, -⟩ := List.map_eq_cons_iff.1 hmarks'
  obtain ⟨hstart, hsize, -⟩ := hplaced.marks m
    (hsplit ▸ List.mem_append_right _ List.mem_cons_self)
  obtain ⟨front, s, back, hparts, hearlier, hbefore⟩ := replay_mark .first hsplit
  rw [← hbefore, List.nil_append] at hstart
  have hinner : Carries link _ _ _ := Carries.listReplay m.children s
  obtain ⟨c, cs, hcs⟩ : ∃ c cs, listChars m.children = [] ++ c :: cs := by
    apply List.exists_cons_of_ne_nil
    intro hnil
    rw [hnil] at hsize
    exact hlength (UInt32.toNat_inj.1 hsize.symm)
  obtain ⟨lead, rest, hlead, hnone⟩ := exists_front (hinner.chars.trans hcs)
  have hlevel := hinner.level [] []
  rw [List.append_nil, hlead] at hlevel
  refine ⟨front, lead, c, rest, back ++ (listReplay itemEmitter nodes .first).2.anchorItems, ?_,
    hearlier, hstart, hnone, hlevel⟩
  rw [itemsOf_eq, hparts, hlead]
  simp only [List.append_assoc, List.cons_append]

end CrossRef.Markup.Html
