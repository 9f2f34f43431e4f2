import CrossRef.Proofs.Markup.Growth
import CrossRef.Proofs.Markup.Html.Item

namespace CrossRef.Markup.Html

variable {link : Binding → String} {items others : List Item} {cs cs' : List Char}
  {facts facts' : List Fact}

theorem Origin.plain (origin : Origin) : (origin.tag link).Plain := by
  cases origin with
  | line n => exact ⟨by simp [Origin.tag, Tag.ofLine], by simp [Origin.tag, Tag.ofLine]⟩
  | fact fact =>
    obtain ⟨start, length, payload⟩ := fact
    cases payload <;>
      exact ⟨by simp [Origin.tag, Tag.ofFact], by simp [Origin.tag, Tag.ofFact]⟩

namespace Item

def tokens (link : Binding → String) : Item → List Token
  | char c => (escapeChar c).map .char
  | opening origin => [.tag (origin.tag link).body]
  | closing origin => [.tag (origin.tag link).closingBody]

def bracket? (link : Binding → String) : Item → Option Bracket
  | char _ => none
  | opening origin => some (.opening (origin.tag link))
  | closing origin => some (.closing (origin.tag link).name)

theorem flatMap_tokens (item : Item) :
    (item.tokens link).flatMap Token.written = item.written link := by
  cases item with
  | char c => simp [tokens, written, List.flatMap_map, Token.written]
  | opening origin => simp [tokens, written, Tag.toList_opening]
  | closing origin => simp [tokens, written, Tag.toList_closing]

theorem plain_tokens (item : Item) : ∀ token ∈ item.tokens link, token.Plain := by
  cases item with
  | char c =>
    intro token htoken
    obtain ⟨d, hd, rfl⟩ := List.mem_map.1 htoken
    have hplain := escapeChar_plain c d hd
    exact ⟨fun h => by simp [h] at hplain, fun h => by simp [h] at hplain⟩
  | opening origin => simpa [tokens] using origin.plain.body
  | closing origin => simpa [tokens] using origin.plain.closingBody

theorem read_tokens (item : Item) :
    ((item.tokens link).filterMap Token.body?).mapM Bracket.read? =
      some (item.bracket? link).toList := by
  cases item with
  | char c => simp [tokens, bracket?, List.filterMap_map, Function.comp_def, Token.body?]
  | opening origin => simp [tokens, bracket?, Token.body?, origin.plain.read_body]
  | closing origin => simp [tokens, bracket?, Token.body?, Tag.read_closingBody]

end Item

theorem splits_print (link : Binding → String) (items : List Item) :
    Splits (print link items).toList (items.flatMap (Item.tokens link)) where
  written := by simp [print, List.flatMap_assoc, Item.flatMap_tokens]
  plain := by
    intro token htoken
    obtain ⟨item, -, htoken⟩ := List.mem_flatMap.1 htoken
    exact item.plain_tokens token htoken

theorem read_print (link : Binding → String) (items : List Item) :
    ((items.flatMap (Item.tokens link)).filterMap Token.body?).mapM Bracket.read? =
      some (items.filterMap (Item.bracket? link)) := by
  induction items with
  | nil => rfl
  | cons item rest ih =>
    rw [List.flatMap_cons, List.filterMap_append, List.mapM_append, item.read_tokens, ih]
    cases h : item.bracket? link <;> simp [h]

theorem chars_print (link : Binding → String) (items : List Item) :
    (items.flatMap (Item.tokens link)).filterMap Token.char? =
      (items.filterMap Item.char?).flatMap escapeChar := by
  induction items with
  | nil => rfl
  | cons item rest ih =>
    rw [List.flatMap_cons, List.filterMap_append, ih]
    cases item <;>
      simp [Item.tokens, Item.char?, Token.char?, List.filterMap_map, Function.comp_def,
        List.filterMap_cons]

theorem tags_print (link : Binding → String) (items : List Item) :
    (items.filterMap (Item.bracket? link)).filterMap Bracket.tag? =
      (items.filterMap Item.origin?).map (Origin.tag link) := by
  induction items with
  | nil => rfl
  | cons item rest ih =>
    cases item <;> simp [Item.bracket?, Item.origin?, Bracket.tag?, List.filterMap_cons, ih]

/-- Parts with a text and facts in them, in which every element that opens also closes. -/
structure Carries (link : Binding → String) (items : List Item) (cs : List Char)
    (facts : List Fact) : Prop where
  chars : items.filterMap Item.char? = cs
  facts : (items.filterMap Item.origin?).filterMap Origin.fact? = facts
  level : ∀ opened rest, balanced opened (items.filterMap (Item.bracket? link) ++ rest) =
    balanced opened rest

namespace Carries

theorem nil : Carries link [] [] [] := ⟨rfl, rfl, fun _ _ => rfl⟩

theorem append (h : Carries link items cs facts) (h' : Carries link others cs' facts') :
    Carries link (items ++ others) (cs ++ cs') (facts ++ facts') where
  chars := by rw [List.filterMap_append, h.chars, h'.chars]
  facts := by rw [List.filterMap_append, List.filterMap_append, h.facts, h'.facts]
  level := by
    intro opened rest
    rw [List.filterMap_append, List.append_assoc, h.level, h'.level]

theorem char (c : Char) : Carries link [.char c] [c] [] := ⟨rfl, rfl, fun _ _ => rfl⟩

theorem element (origin : Origin) (h : Carries link items cs facts) :
    Carries link (.opening origin :: (items ++ [.closing origin])) cs
      (origin.fact?.toList ++ facts) where
  chars := by simp [Item.char?, List.filterMap_cons, h.chars]
  facts := by
    cases horigin : origin.fact? <;> simp [Item.origin?, List.filterMap_cons, horigin, h.facts]
  level := by
    intro opened rest
    have hinner := h.level ((origin.tag link).name :: opened)
      (.closing (origin.tag link).name :: rest)
    simp [Item.bracket?, balanced, hinner]

theorem anchorItems (s : LineState) : Carries link s.anchorItems [] [] := by
  unfold LineState.anchorItems
  split
  · exact nil.element (.line s.line)
  · exact nil

theorem charItems (cs : List Char) (s : LineState) : Carries link (s.charItems cs) cs [] := by
  induction cs generalizing s with
  | nil => exact nil
  | cons c cs ih => exact (anchorItems s).append ((char c).append (ih _))

theorem listReplay (nodes : List Node) (s : LineState) :
    Carries link (Node.listReplay itemEmitter nodes s).1.flatten (Node.listChars nodes)
      (Node.listFacts nodes) := by
  induction nodes using Node.forest_induction generalizing s with
  | nil => exact nil
  | text start content rest ih => exact (charItems content.toList s).append (ih _)
  | annotated fact children rest ih ih' => exact ((ih s).element (.fact fact)).append (ih' _)

theorem itemsOf (nodes : List Node) :
    Carries link (itemsOf nodes) (Node.listChars nodes) (Node.listFacts nodes) := by
  have hlast : Carries link (Node.listReplay itemEmitter nodes .first).2.anchorItems [] [] :=
    anchorItems _
  have h := (listReplay nodes .first).append hlast
  rw [List.append_nil, List.append_nil] at h
  exact h

end Carries

/-- The attribute of a fact's element that shows its payload. -/
def shown (link : Binding → String) : Payload → String × String
  | .reference binding _ _ => ("href", link binding)
  | .declaration binding => ("id", binding.text)
  | .style classes => ("class", " ".intercalate classes.toList)
  | .localVariable id => ("data-local-id", id)

theorem lookup_shown (link : Binding → String) (fact : Fact) :
    (Tag.ofFact link fact).attributes.lookup (shown link fact.payload).1 =
      some (shown link fact.payload).2 := by
  obtain ⟨start, length, payload⟩ := fact
  cases payload <;> rfl

/-- An output read back: `tokens` is the one way to cut it at its angle brackets, `brackets` are the
tags among them, and `origins` is what the tags that open belong to. -/
structure Reading (link : Binding → String) (html text : String) (facts : List Fact)
    (tokens : List Token) (brackets : List Bracket) (origins : List Origin) : Prop where
  splits : Splits html.toList tokens
  unique : ∀ other, Splits html.toList other → other = tokens
  read : (tokens.filterMap Token.body?).mapM Bracket.read? = some brackets
  balanced : balanced [] brackets = true
  opened : brackets.filterMap Bracket.tag? = origins.map (Origin.tag link)
  facts : origins.filterMap Origin.fact? = inOrder facts
  shown : ∀ (i : Nat) (tag : Tag) (fact : Fact),
    (brackets.filterMap Bracket.tag?)[i]? = some tag → origins[i]? = some (.fact fact) →
      tag.attributes.lookup (shown link fact.payload).1 = some (shown link fact.payload).2
  text : unescape (tokens.filterMap Token.char?) = text.toList

/-- Every output reads back: its tags are those of lines and facts, balanced and with the attributes
they were given, and what stands between them is the text. -/
theorem render_reads {text html : String} {facts : List Fact}
    (h : render link text facts = .ok html) :
    ∃ tokens brackets origins, Reading link html text facts tokens brackets origins := by
  rw [render_eq_print] at h
  cases htree : renderTree text facts with
  | error fault => simp [htree, Except.map] at h
  | ok nodes =>
    obtain rfl : print link (itemsOf nodes) = html := by simpa [htree, Except.map] using h
    obtain ⟨-, -, hfacts, hchars⟩ := placed_of_renderTree htree
    have hcarries : Carries link (itemsOf nodes) _ _ := Carries.itemsOf nodes
    have hsplits := splits_print link (itemsOf nodes)
    have hlevel := hcarries.level [] []
    rw [List.append_nil] at hlevel
    refine ⟨_, _, _, hsplits, fun other hother => hsplits.unique hother, read_print link _, hlevel,
      tags_print link _, hcarries.facts.trans hfacts, fun i tag fact htag horigin => ?_, ?_⟩
    · rw [tags_print, List.getElem?_map, horigin] at htag
      obtain rfl : Tag.ofFact link fact = tag := Option.some.inj htag
      exact lookup_shown link fact
    · rw [chars_print, unescape_escape, hcarries.chars, hchars]

/-- Quotes, brackets and entities in every string of the input. -/
theorem render_reads_quoted :
    let link : Binding → String := fun b => "?" ++ b.text
    let facts : List Fact := [⟨0, 5, .style ⟨["\"><b>"], by decide⟩⟩,
      ⟨0, 1, .reference ⟨"</a>'"⟩ .cast 0⟩]
    ∃ html, render link "<&lt;\n" facts = .ok html ∧
      ∃ tokens brackets origins, Reading link html "<&lt;\n" facts tokens brackets origins := by
  intro link facts
  have hsorted : inOrder facts = facts := List.mergeSort_of_pairwise (by decide)
  have h : render link "<&lt;\n" facts = .ok
      ("<span class=\"&quot;&gt;&lt;b&gt;\">" ++
        "<a href=\"?&lt;/a&gt;&#39;\" class=\"ref\" data-kind=\"14\" data-ref-id=\"0\">" ++
        "<a href=\"#1\" id=\"1\" class=\"line\" data-line=\"1\"></a>&lt;</a>&amp;lt;</span>\n" ++
        "<a href=\"#2\" id=\"2\" class=\"line\" data-line=\"2\"></a>") := by
    unfold render Markup.render
    rw [hsorted]
    decide +kernel
  exact ⟨_, h, render_reads h⟩

end CrossRef.Markup.Html
