import CrossRef.Markup.Html
import CrossRef.Proofs.Text.Split

namespace CrossRef.Markup.Html

/-- Decodes the five entities; what is none of them stands for itself. -/
def unescape : List Char → List Char
  | '&' :: 'a' :: 'm' :: 'p' :: ';' :: rest => '&' :: unescape rest
  | '&' :: 'l' :: 't' :: ';' :: rest => '<' :: unescape rest
  | '&' :: 'g' :: 't' :: ';' :: rest => '>' :: unescape rest
  | '&' :: 'q' :: 'u' :: 'o' :: 't' :: ';' :: rest => '"' :: unescape rest
  | '&' :: '#' :: '3' :: '9' :: ';' :: rest => '\'' :: unescape rest
  | c :: rest => c :: unescape rest
  | [] => []

theorem unescape_cons {c : Char} (hc : c ≠ '&') (rest : List Char) :
    unescape (c :: rest) = c :: unescape rest := by
  rw [unescape]
  all_goals
    intros
    contradiction

theorem unescape_escapeChar (c : Char) (rest : List Char) :
    unescape (escapeChar c ++ rest) = c :: unescape rest := by
  unfold escapeChar
  split
  case h_6 hamp _ _ _ _ => exact unescape_cons hamp rest
  all_goals rfl

theorem unescape_escape (cs : List Char) : unescape (cs.flatMap escapeChar) = cs := by
  induction cs with
  | nil => rfl
  | cons c cs ih => rw [List.flatMap_cons, unescape_escapeChar, ih]

theorem escapeChar_ne_nil (c : Char) : escapeChar c ≠ [] := by
  intro hnil
  have hread := unescape_escapeChar c []
  simp [hnil, unescape] at hread

/-- No character is written with one that delimits a tag or a value. -/
theorem escapeChar_plain (c : Char) : ∀ d ∈ escapeChar c, d ∉ ['<', '>', '"'] := by
  unfold escapeChar
  split
  case h_6 hlt hgt hquot _ =>
    intro d hd
    obtain rfl := List.mem_singleton.1 hd
    simpa using ⟨hlt, hgt, hquot⟩
  all_goals simp

theorem escape_plain (cs : List Char) : ∀ c ∈ cs.flatMap escapeChar, c ∉ ['<', '>', '"'] := by
  intro c hc
  obtain ⟨d, -, hd⟩ := List.mem_flatMap.1 hc
  exact escapeChar_plain d c hd

/-- What an output consists of: what stands between two angle brackets, or one character. -/
inductive Token
  | tag (body : List Char)
  | char (c : Char)
  deriving DecidableEq

namespace Token

def written : Token → List Char
  | tag body => '<' :: (body ++ ['>'])
  | char c => [c]

/-- No angle bracket stands in it but those around a tag. -/
def Plain : Token → Prop
  | tag body => '<' ∉ body ∧ '>' ∉ body
  | char c => c ≠ '<' ∧ c ≠ '>'

def body? : Token → Option (List Char)
  | tag body => some body
  | char _ => none

def char? : Token → Option Char
  | tag _ => none
  | char c => some c

end Token

/-- The tokens are what the angle brackets cut the output into. -/
structure Splits (html : List Char) (tokens : List Token) : Prop where
  written : tokens.flatMap Token.written = html
  plain : ∀ token ∈ tokens, token.Plain

theorem Token.plain_tag {body : List Char} (h : ∀ c ∈ body, c ∉ ['<', '>']) :
    (Token.tag body).Plain :=
  ⟨fun hlt => h _ hlt (by simp), fun hgt => h _ hgt (by simp)⟩

/-- The first token of a text is known from the text. -/
theorem Token.written_append_inj {token token' : Token} {rest rest' : List Char}
    (hplain : token.Plain) (hplain' : token'.Plain)
    (h : token.written ++ rest = token'.written ++ rest') : token = token' ∧ rest = rest' := by
  cases token with
  | char c =>
    cases token' with
    | char c' => simpa [written] using h
    | tag body' =>
      obtain ⟨rfl, -⟩ := List.cons.inj h
      exact absurd rfl hplain.1
  | tag body =>
    cases token' with
    | char c' =>
      obtain ⟨rfl, -⟩ := List.cons.inj h
      exact absurd rfl hplain'.1
    | tag body' =>
      have htail : body ++ '>' :: rest = body' ++ '>' :: rest' := by simpa [written] using h
      have hsplit := congrArg (Text.split '>') htail
      rw [Text.split_append_cons hplain.2, Text.split_append_cons hplain'.2] at hsplit
      obtain rfl := (List.cons.inj hsplit).1
      exact ⟨rfl, (List.cons.inj (List.append_cancel_left htail)).2⟩

theorem Token.written_ne_nil (token : Token) : token.written ≠ [] := by
  cases token <;> simp [written]

theorem Splits.unique {html : List Char} {tokens other : List Token} (h : Splits html tokens)
    (h' : Splits html other) : other = tokens := by
  induction tokens generalizing html other with
  | nil =>
    obtain rfl := h.written
    cases other with
    | nil => rfl
    | cons token' rest' =>
      exact absurd (List.append_eq_nil_iff.1 h'.written).1 token'.written_ne_nil
  | cons token rest ih =>
    obtain ⟨hplain, hrest⟩ := List.forall_mem_cons.1 h.plain
    cases other with
    | nil =>
      exact absurd (List.append_eq_nil_iff.1 (h.written.trans h'.written.symm)).1
        token.written_ne_nil
    | cons token' rest' =>
      obtain ⟨hplain', hrest'⟩ := List.forall_mem_cons.1 h'.plain
      have hwritten : token.written ++ rest.flatMap Token.written =
          token'.written ++ rest'.flatMap Token.written := h.written.trans h'.written.symm
      obtain ⟨rfl, htail⟩ := Token.written_append_inj hplain hplain' hwritten
      rw [ih ⟨rfl, hrest⟩ ⟨htail.symm, hrest'⟩]

/-- What stands between the brackets of a tag: an element that opens, or the name of one that
closes. -/
inductive Bracket
  | opening (tag : Tag)
  | closing (name : String)
  deriving DecidableEq

def Bracket.tag? : Bracket → Option Tag
  | opening tag => some tag
  | closing _ => none

/-- Reads the attributes of a tag from the pieces between its quotes, names and values by turns. -/
def readAttributes : List (List Char) → Option (List (String × String))
  | [[]] => some []
  | (' ' :: name) :: value :: rest =>
    if name.getLast? = some '=' then
      (readAttributes rest).map
        ((String.ofList name.dropLast, String.ofList (unescape value)) :: ·)
    else none
  | _ => none

def Bracket.read? : List Char → Option Bracket
  | '/' :: name => some (.closing (String.ofList name))
  | body =>
    (readAttributes (Text.split '"' (body.dropWhile (· ≠ ' ')))).map fun attributes =>
      .opening ⟨String.ofList (body.takeWhile (· ≠ ' ')), attributes⟩

/-- Every closing tag has the name of the innermost element that is open, and none stays open. -/
def balanced : List String → List Bracket → Bool
  | opened, .opening tag :: rest => balanced (tag.name :: opened) rest
  | name :: opened, .closing name' :: rest => name = name' && balanced opened rest
  | [], .closing _ :: _ => false
  | opened, [] => opened.isEmpty

namespace Tag

def body (t : Tag) : List Char := t.name.toList ++ t.attributes.flatMap fun a => (field a).toList

def closingBody (t : Tag) : List Char := '/' :: t.name.toList

/-- Names in which nothing stands that delimits a tag, an attribute or a value. -/
structure Plain (t : Tag) : Prop where
  name : ∀ c ∈ t.name.toList, c ∉ ['<', '>', ' ', '/']
  keys : ∀ a ∈ t.attributes, ∀ c ∈ a.1.toList, c ∉ ['<', '>', '"']

theorem toList_opening (t : Tag) : t.opening.toList = (Token.tag t.body).written := by
  simp [opening, body, Token.written, List.flatMap_map]

theorem toList_closing (t : Tag) : t.closing.toList = (Token.tag t.closingBody).written := by
  simp [closing, closingBody, Token.written]

theorem toList_field (a : String × String) :
    (field a).toList =
      (' ' :: (a.1.toList ++ ['='])) ++ '"' :: (a.2.toList.flatMap escapeChar ++ ['"']) := by
  simp [field, escape]

variable {t : Tag}

theorem Plain.body (h : t.Plain) : (Token.tag t.body).Plain := by
  refine Token.plain_tag fun c hc => ?_
  rcases List.mem_append.1 hc with hc | hc
  · have hname := h.name c hc
    simp_all
  · obtain ⟨a, ha, hc⟩ := List.mem_flatMap.1 hc
    have hkey := h.keys a ha c
    have hvalue := escape_plain a.2.toList c
    rw [toList_field] at hc
    simp only [List.cons_append, List.mem_cons, List.mem_append, List.not_mem_nil, or_false] at *
    grind

theorem Plain.closingBody (h : t.Plain) : (Token.tag t.closingBody).Plain := by
  refine Token.plain_tag fun c hc => ?_
  rcases List.mem_cons.1 hc with rfl | hc
  · decide
  · have hname := h.name c hc
    simp_all

theorem readAttributes_fields {attributes : List (String × String)}
    (h : ∀ a ∈ attributes, '"' ∉ a.1.toList) :
    readAttributes (Text.split '"' (attributes.flatMap fun a => (field a).toList)) =
      some attributes := by
  induction attributes with
  | nil => rfl
  | cons a rest ih =>
    obtain ⟨hkey, hrest⟩ := List.forall_mem_cons.1 h
    have hname : '"' ∉ ' ' :: (a.1.toList ++ ['=']) := by simpa using hkey
    have hvalue : '"' ∉ a.2.toList.flatMap escapeChar := fun h => escape_plain _ _ h (by simp)
    have hfields : (a :: rest).flatMap (fun a => (field a).toList) =
        (' ' :: (a.1.toList ++ ['='])) ++ '"' :: (a.2.toList.flatMap escapeChar ++
          '"' :: rest.flatMap fun a => (field a).toList) := by
      simp [toList_field]
    rw [hfields, Text.split_append_cons hname, Text.split_append_cons hvalue, readAttributes,
      if_pos (by simp), ih hrest]
    simp [unescape_escape]

theorem Plain.name_body (h : t.Plain) : t.body.takeWhile (· ≠ ' ') = t.name.toList ∧
    t.body.dropWhile (· ≠ ' ') = t.attributes.flatMap fun a => (field a).toList := by
  have hname : ∀ c ∈ t.name.toList, decide (c ≠ ' ') = true := by
    intro c hc
    have hplain := h.name c hc
    simp_all
  rw [Tag.body, List.takeWhile_append_of_pos hname, List.dropWhile_append_of_pos hname]
  cases t.attributes with
  | nil => simp
  | cons a rest => simp [toList_field]

/-- An opening tag reads back, whatever its values are. -/
theorem Plain.read_body (h : t.Plain) : Bracket.read? t.body = some (.opening t) := by
  have hopen : ∀ name, t.body ≠ '/' :: name := by
    intro name hbody
    have hslash : '/' ∈ t.body.takeWhile (· ≠ ' ') := by simp [hbody]
    rw [h.name_body.1] at hslash
    exact h.name '/' hslash (by simp)
  have hkeys : ∀ a ∈ t.attributes, '"' ∉ a.1.toList := by
    intro a ha hquote
    exact h.keys a ha _ hquote (by simp)
  rw [Bracket.read?, h.name_body.1, h.name_body.2, readAttributes_fields hkeys]
  · simp
  · exact hopen

theorem read_closingBody (t : Tag) : Bracket.read? t.closingBody = some (.closing t.name) := by
  simp [Tag.closingBody, Bracket.read?]

end Tag

end CrossRef.Markup.Html
