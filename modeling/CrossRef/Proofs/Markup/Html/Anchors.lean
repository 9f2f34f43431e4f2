import CrossRef.Proofs.Markup.Html.Lines
import CrossRef.Proofs.Markup.Nesting
import CrossRef.Proofs.Text.Lines

namespace CrossRef.Markup.Html

open Node (listReplay listChars listFacts)

variable {link : Binding → String}

/-- The number of the line that an anchor begins. -/
def Tag.line? (t : Tag) : Option Nat :=
  (t.attributes.lookup "data-line").map fun digits => Nat.ofDigitChars 10 digits.toList 0

theorem line?_tag (link : Binding → String) (origin : Origin) :
    (origin.tag link).line? = origin.line?.map UInt32.toNat := by
  cases origin with
  | line n =>
    have hdigits : (toString n).toList = Nat.toDigits 10 n.toNat := Nat.toList_repr
    have hread : Nat.ofDigitChars 10 (toString n).toList 0 = n.toNat := by
      rw [hdigits, Nat.ofDigitChars_ten_toDigits]
    exact congrArg some hread
  | fact fact =>
    obtain ⟨start, length, payload⟩ := fact
    cases payload <;> rfl

def Token.bracket? (token : Token) : Option Bracket := token.body?.bind Bracket.read?

/-- The elements of an output in the order in which they open. -/
def openings (tokens : List Token) : List Tag :=
  tokens.filterMap fun token => token.bracket?.bind Bracket.tag?

/-- The numbers of the line anchors. -/
def lineNumbers (tokens : List Token) : List Nat := (openings tokens).filterMap Tag.line?

/-- The elements that begin no line. -/
def elements (tokens : List Token) : List Tag :=
  (openings tokens).filter fun tag => tag.line?.isNone

theorem filterMap_of_mapM {α β : Type} {f : α → Option β} {xs : List α} {ys : List β}
    (h : xs.mapM f = some ys) : xs.filterMap f = ys := by
  induction xs generalizing ys with
  | nil => exact Option.some.inj h
  | cons x xs ih =>
    simp only [List.mapM_cons, Option.bind_eq_bind, Option.bind_eq_some_iff, Option.pure_def,
      Option.some.injEq] at h
    obtain ⟨y, hy, zs, hzs, rfl⟩ := h
    rw [List.filterMap_cons_some hy, ih hzs]

section Tokens

variable (link : Binding → String) (items : List Item)

theorem openings_tokens : openings (items.flatMap (Item.tokens link)) =
    (items.filterMap Item.origin?).map (Origin.tag link) := by
  rw [← tags_print, ← filterMap_of_mapM (read_print link items), List.filterMap_filterMap,
    List.filterMap_filterMap]
  apply List.filterMap_congr
  intro token _
  exact Option.bind_assoc _ _ _

theorem lineNumbers_tokens : lineNumbers (items.flatMap (Item.tokens link)) =
    (items.filterMap Item.line?).map UInt32.toNat := by
  have hline : Tag.line? ∘ Origin.tag link = fun origin => origin.line?.map UInt32.toNat :=
    funext (line?_tag link)
  rw [lineNumbers, openings_tokens, List.filterMap_map, hline, ← List.map_filterMap,
    List.filterMap_filterMap]
  rfl

theorem elements_tokens : elements (items.flatMap (Item.tokens link)) =
    (items.filterMap Item.fact?).map (Tag.ofFact link) := by
  have horigins : ∀ origins : List Origin,
      (origins.map (Origin.tag link)).filter (fun tag => tag.line?.isNone) =
        (origins.filterMap Origin.fact?).map (Tag.ofFact link) := by
    intro origins
    induction origins with
    | nil => rfl
    | cons origin origins ih =>
      rw [List.map_cons, List.filter_cons, line?_tag, ih]
      cases origin <;> rfl
  rw [elements, openings_tokens, horigins, List.filterMap_filterMap]
  rfl

end Tokens

/-- The tokens without the tags of elements that begin no line; `opened` tells of each open element
whether it is left out. -/
def bareTokens : List Bool → List Token → List Token
  | _, [] => []
  | opened, token :: rest =>
    match token.bracket? with
    | none => token :: bareTokens opened rest
    | some (.opening tag) =>
      if tag.line?.isSome then token :: bareTokens (false :: opened) rest
      else bareTokens (true :: opened) rest
    | some (.closing _) =>
      if opened.head? = some true then bareTokens opened.tail rest
      else token :: bareTokens opened.tail rest

section Bare

variable (opened : List Bool) (rest : List Token)

theorem bareTokens_chars (cs : List Char) :
    bareTokens opened (cs.map .char ++ rest) = cs.map .char ++ bareTokens opened rest := by
  induction cs with
  | nil => rfl
  | cons c cs ih =>
    rw [List.map_cons, List.cons_append, bareTokens]
    simp only [Token.bracket?, Token.body?, Option.bind_none, ih]
    rfl

theorem bareTokens_opening (origin : Origin) :
    bareTokens opened (.tag (origin.tag link).body :: rest) =
      if origin.line?.isSome then
        .tag (origin.tag link).body :: bareTokens (false :: opened) rest
      else bareTokens (true :: opened) rest := by
  rw [bareTokens]
  simp [Token.bracket?, Token.body?, origin.plain.read_body, line?_tag]

theorem bareTokens_closing (leave : Bool) (origin : Origin) :
    bareTokens (leave :: opened) (.tag (origin.tag link).closingBody :: rest) =
      if leave then bareTokens opened rest
      else .tag (origin.tag link).closingBody :: bareTokens opened rest := by
  rw [bareTokens]
  simp [Token.bracket?, Token.body?, Tag.read_closingBody]

end Bare

theorem bareTokens_anchorItems (s : LineState) (opened : List Bool) (rest : List Token) :
    bareTokens opened (s.anchorItems.flatMap (Item.tokens link) ++ rest) =
      s.anchorItems.flatMap (Item.tokens link) ++ bareTokens opened rest := by
  unfold LineState.anchorItems
  split
  · simp [Item.tokens, bareTokens_opening, bareTokens_closing, Origin.line?]
  · rfl

theorem bareTokens_charItems (cs : List Char) (s : LineState) (opened : List Bool)
    (rest : List Token) : bareTokens opened ((s.charItems cs).flatMap (Item.tokens link) ++ rest) =
      (s.charItems cs).flatMap (Item.tokens link) ++ bareTokens opened rest := by
  induction cs generalizing s with
  | nil => rfl
  | cons c cs ih =>
    rw [LineState.charItems, List.flatMap_append, List.flatMap_cons, List.append_assoc,
      List.append_assoc, bareTokens_anchorItems, Item.tokens, bareTokens_chars, ih,
      List.append_assoc, List.append_assoc]

theorem bareTokens_listReplay (nodes : List Node) (s : LineState) (opened : List Bool)
    (rest : List Token) :
    bareTokens opened
        ((listReplay itemEmitter nodes s).1.flatten.flatMap (Item.tokens link) ++ rest) =
      (s.charItems (listChars nodes)).flatMap (Item.tokens link) ++ bareTokens opened rest := by
  induction nodes using Node.forest_induction generalizing s opened rest with
  | nil => rfl
  | text start content nodes ih =>
    rw [parts_text, List.flatMap_append, List.append_assoc, bareTokens_charItems, ih, listChars,
      Node.chars, LineState.charItems_append, List.flatMap_append, List.append_assoc]
  | annotated fact children nodes ih ih' =>
    obtain ⟨-, hstate⟩ := filter_listReplay children s
    rw [parts_annotated, List.flatMap_cons, List.flatMap_append, List.flatMap_cons]
    simp only [Item.tokens, List.nil_append, List.cons_append, List.append_assoc]
    rw [bareTokens_opening, if_neg (by simp [Origin.line?]), ih, bareTokens_closing, if_pos rfl,
      ih', hstate, listChars, Node.chars, LineState.charItems_append, List.flatMap_append,
      List.append_assoc]

/-- What is left of an output without the tags of its facts is the output of its text alone. -/
theorem bareTokens_itemsOf (nodes : List Node) :
    bareTokens [] ((itemsOf nodes).flatMap (Item.tokens link)) =
      (LineState.first.bareItems (listChars nodes)).flatMap (Item.tokens link) := by
  obtain ⟨-, hstate⟩ := filter_listReplay nodes .first
  let last := (LineState.first.chars (listChars nodes)).2
  have hlast : bareTokens [] (last.anchorItems.flatMap (Item.tokens link) ++ []) = _ :=
    bareTokens_anchorItems last [] []
  rw [List.append_nil] at hlast
  rw [itemsOf_eq, List.flatMap_append, bareTokens_listReplay, hstate, hlast, LineState.bareItems,
    List.flatMap_append, bareTokens, List.append_nil]

theorem written_tokens (link : Binding → String) (items : List Item) :
    String.ofList ((items.flatMap (Item.tokens link)).flatMap Token.written) =
      print link items := by
  rw [(splits_print link items).written, String.ofList_toList]

theorem render_nofacts (link : Binding → String) (text : String) :
    render link text [] = .ok (print link (LineState.first.bareItems text.toList)) := by
  have hnone : inOrder [] = [] := List.mergeSort_nil
  obtain ⟨⟨nodes, state⟩, hwalk⟩ :=
    render_of_allFit Node.emitter text [] () (by simp [hnone, AllFit])
  have htree : renderTree text [] = .ok nodes := by
    rw [renderTree, hwalk]
  obtain ⟨-, -, hfacts, hchars⟩ := placed_of_renderTree htree
  rw [render_eq_print, htree, Except.map, itemsOf_of_nofacts (hfacts.trans hnone), hchars]

theorem LineState.toNat_lines {k : Nat} (h : k < UInt32.size) :
    (LineState.first.lines k).map UInt32.toNat = List.range' 1 k := by
  rw [LineState.lines, List.map_map, List.range'_eq_map_range]
  apply List.map_congr_left
  intro i hi
  have hlt : 1 + i < UInt32.size := by
    have hle := List.mem_range.1 hi
    omega
  have hnumber : LineState.first.line + UInt32.ofNat i = UInt32.ofNat (1 + i) := by
    rw [UInt32.ofNat_add]
    rfl
  rw [Function.comp_apply, hnumber, UInt32.toNat_ofNat_of_lt' hlt]

/-- The element of a fact behind the elements of `earlier`: it has a first character, and the last
anchor before that is the one of `line`. -/
def LinkOn (link : Binding → String) (tokens : List Token) (earlier : List Fact) (fact : Fact)
    (line : UInt32) : Prop :=
  ∃ front lead c rest back brackets,
    tokens = front ++ .tag (Tag.ofFact link fact).body ::
      (lead ++ .char c :: (rest ++ .tag (Tag.ofFact link fact).closingBody :: back)) ∧
    elements front = earlier.map (Tag.ofFact link) ∧
    ((lead ++ .char c :: rest).filterMap Token.body?).mapM Bracket.read? = some brackets ∧
    balanced [] brackets = true ∧
    lead.filterMap Token.char? = [] ∧
    (lineNumbers (front ++ lead)).getLast? = some line.toNat

/-- An output with its anchors. -/
structure Anchored (link : Binding → String) (text : String) (facts : List Fact) (html : String)
    (tokens : List Token) : Prop where
  splits : Splits html.toList tokens
  unique : ∀ other, Splits html.toList other → other = tokens
  bare : render link text [] =
    .ok (String.ofList ((bareTokens [] tokens).flatMap Token.written))
  owned : elements tokens = (inOrder facts).map (Tag.ofFact link)
  numbered : lineNumbers tokens = List.range' 1 (Text.LineTable.ofText text).lineCount
  chars : ∀ before c behind offset, text.toList = before ++ c :: behind →
    Text.size before ≤ offset → offset < Text.size before + c.utf8Size →
      ∃ front back, tokens = front ++ (escapeChar c).map .char ++ back ∧
        front.filterMap Token.char? = before.flatMap escapeChar ∧
        lineNumbers front = List.range' 1 ((Text.LineTable.ofText text).lineAt offset).toNat
  links : ∀ earlier fact later, inOrder facts = earlier ++ fact :: later → fact.length ≠ 0 →
    LinkOn link tokens earlier fact ((Text.LineTable.ofText text).lineAt fact.start.toNat)

section Placed

variable {nodes : List Node} {text : String}
  (hlines : (Text.LineTable.ofText text).lineCount < UInt32.size)
  (htext : listChars nodes = text.toList)

include hlines htext

/-- The anchors in front of a character are numbered up to the line of its bytes. -/
theorem lineNumbers_front {front back : List Item} {c : Char} {offset : Nat}
    (hparts : itemsOf nodes = front ++ .char c :: back)
    (hle : Text.size (front.filterMap Item.char?) ≤ offset)
    (hlt : offset < Text.size (front.filterMap Item.char?) + c.utf8Size) :
    lineNumbers (front.flatMap (Item.tokens link)) =
      List.range' 1 ((Text.LineTable.ofText text).lineAt offset).toNat := by
  have hcarries : Carries link (itemsOf nodes) _ _ := Carries.itemsOf nodes
  have hcut : text.toList = front.filterMap Item.char? ++ c :: back.filterMap Item.char? := by
    rw [← htext, ← hcarries.chars, hparts, List.filterMap_append,
      List.filterMap_cons_some (by rfl)]
  have hcount : 1 + (front.filterMap Item.char?).count '\n' < UInt32.size := by
    rw [Text.LineTable.lineCount_ofText, hcut, List.count_append] at hlines
    omega
  rw [lineNumbers_tokens, lines_front hparts, Text.LineTable.lineAt_char hlines hcut hle hlt,
    LineState.toNat_lines hcount]

theorem linkOn_itemsOf {earlier later : List Fact} {fact : Fact}
    (hplaced : Node.ListPlaced (Text.size []) nodes)
    (hfacts : listFacts nodes = earlier ++ fact :: later) (hlength : fact.length ≠ 0) :
    LinkOn link ((itemsOf nodes).flatMap (Item.tokens link)) earlier fact
      ((Text.LineTable.ofText text).lineAt fact.start.toNat) := by
  obtain ⟨front, lead, c, rest, back, hparts, rfl, hstart, hlead, hlevel⟩ :=
    exists_element link hplaced hfacts hlength
  obtain ⟨d, ds, hescape⟩ := List.exists_cons_of_ne_nil (escapeChar_ne_nil c)
  have hread := read_print link (lead ++ .char c :: rest)
  have hchar : itemsOf nodes = (front ++ .opening (.fact fact) :: lead) ++ .char c ::
      (rest ++ .closing (.fact fact) :: back) := by
    rw [hparts, List.append_assoc, List.cons_append]
  have hbefore : (front ++ .opening (.fact fact) :: lead).filterMap Item.char? =
      front.filterMap Item.char? := by
    rw [List.filterMap_append, List.filterMap_cons_none (by rfl), hlead, List.append_nil]
  have hnumbers : lineNumbers ((front ++ .opening (.fact fact) :: lead).flatMap
      (Item.tokens link)) = _ :=
    lineNumbers_front hlines htext hchar (hbefore ▸ hstart.le)
      (hbefore ▸ hstart ▸ Nat.lt_add_of_pos_right c.utf8Size_pos)
  refine ⟨front.flatMap (Item.tokens link), lead.flatMap (Item.tokens link), d,
    ds.map .char ++ rest.flatMap (Item.tokens link), back.flatMap (Item.tokens link), _, ?_,
    elements_tokens link front, ?_, hlevel, ?_, ?_⟩
  · rw [hparts]
    simp only [List.flatMap_append, List.flatMap_cons, Item.tokens, hescape, List.map_cons,
      List.append_assoc, List.cons_append, List.nil_append]
    rfl
  · rw [← hread, List.flatMap_append, List.flatMap_cons, Item.tokens, hescape]
    rfl
  · rw [chars_print, hlead, List.flatMap_nil]
  · rw [lineNumbers_tokens, List.filterMap_append, List.filterMap_cons_none (by rfl),
      ← List.filterMap_append, ← lineNumbers_tokens link, List.flatMap_append] at hnumbers
    have hpos := Text.LineTable.lineAt_pos text fact.start.toNat
    rw [hnumbers, List.getLast?_range', if_neg hpos.ne', Nat.add_sub_cancel_left]

end Placed

theorem print_of_render {text html : String} {facts : List Fact}
    (h : render link text facts = .ok html) :
    ∃ nodes, html = print link (itemsOf nodes) ∧ Node.ListPlaced 0 nodes ∧
      listFacts nodes = inOrder facts ∧ listChars nodes = text.toList := by
  rw [render_eq_print] at h
  cases htree : renderTree text facts with
  | error fault => simp [htree, Except.map] at h
  | ok nodes =>
    have hhtml : print link (itemsOf nodes) = html := by simpa [htree, Except.map] using h
    obtain ⟨hplaced, -, hfacts, hchars⟩ := placed_of_renderTree htree
    exact ⟨nodes, hhtml.symm, hplaced, hfacts, hchars⟩

theorem elements_of_render {text html : String} {facts : List Fact}
    (h : render link text facts = .ok html) :
    ∃ tokens, Splits html.toList tokens ∧
      elements tokens = (inOrder facts).map (Tag.ofFact link) := by
  obtain ⟨nodes, rfl, -, hfacts, -⟩ := print_of_render h
  have hcarries : Carries link (itemsOf nodes) _ _ := Carries.itemsOf nodes
  refine ⟨_, splits_print link (itemsOf nodes), ?_⟩
  rw [elements_tokens, hcarries.facts_eq, hfacts]

theorem anchored_of_render {text html : String} {facts : List Fact}
    (hlines : (Text.LineTable.ofText text).lineCount < UInt32.size - 1)
    (h : render link text facts = .ok html) : ∃ tokens, Anchored link text facts html tokens := by
  obtain ⟨nodes, rfl, hplaced, hfacts, hchars⟩ := print_of_render h
  have hcarries : Carries link (itemsOf nodes) _ _ := Carries.itemsOf nodes
  have hsplits := splits_print link (itemsOf nodes)
  have hless : (Text.LineTable.ofText text).lineCount < UInt32.size := by omega
  have hcount : 1 + text.toList.count '\n' < UInt32.size := by
    rwa [Text.LineTable.lineCount_ofText] at hless
  refine ⟨_, hsplits, fun other hother => hsplits.unique hother, ?_, ?_, ?_, ?_, ?_⟩
  · rw [render_nofacts, bareTokens_itemsOf, written_tokens, hchars]
  · rw [elements_tokens, hcarries.facts_eq, hfacts]
  · rw [lineNumbers_tokens, lines_itemsOf, hchars, Text.LineTable.lineCount_ofText,
      LineState.toNat_lines hcount]
  · intro before c behind offset htext hle hlt
    obtain ⟨front, back, hparts, rfl⟩ :=
      exists_front (hcarries.chars.trans (hchars.trans htext))
    refine ⟨front.flatMap (Item.tokens link), back.flatMap (Item.tokens link), ?_,
      chars_print link front, lineNumbers_front hless hchars hparts hle hlt⟩
    rw [hparts, List.flatMap_append, List.flatMap_cons, Item.tokens, List.append_assoc]
  · intro earlier fact later hsplit hlength
    exact linkOn_itemsOf hless hchars hplaced (hfacts.trans hsplit) hlength

end CrossRef.Markup.Html
