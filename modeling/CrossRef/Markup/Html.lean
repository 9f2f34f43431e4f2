import CrossRef.Markup.Walk

namespace CrossRef.Markup.Html

/-- Five characters are written as entities; the rest stand for themselves. -/
def escapeChar : Char → List Char
  | '&' => "&amp;".toList
  | '<' => "&lt;".toList
  | '>' => "&gt;".toList
  | '"' => "&quot;".toList
  | '\'' => "&#39;".toList
  | c => [c]

def escape (text : String) : String := String.ofList (text.toList.flatMap escapeChar)

/-- An element with its attributes in order; the values are plain, not yet escaped. -/
structure Tag where
  name : String
  attributes : List (String × String)
  deriving DecidableEq, Repr

namespace Tag

def field : String × String → String
  | (name, value) => " " ++ name ++ "=\"" ++ escape value ++ "\""

def opening (t : Tag) : String := "<" ++ t.name ++ String.join (t.attributes.map field) ++ ">"

def closing (t : Tag) : String := "</" ++ t.name ++ ">"

def around (t : Tag) (inner : String) : String := t.opening ++ inner ++ t.closing

def ofLine (n : UInt32) : Tag :=
  ⟨"a", [("href", s!"#{n}"), ("id", s!"{n}"), ("class", "line"), ("data-line", s!"{n}")]⟩

/-- The element of a fact; `link` gives the target of a reference. -/
def ofFact (link : Binding → String) (fact : Fact) : Tag :=
  match fact.payload with
  | .reference binding kind id =>
    ⟨"a", [("href", link binding), ("class", "ref"), ("data-kind", s!"{kind.id}"),
      ("data-ref-id", s!"{id}")]⟩
  | .declaration binding => ⟨"a", [("id", binding.text), ("class", "decl")]⟩
  | .style classes => ⟨"span", [("class", " ".intercalate classes.toList)]⟩
  | .localVariable id => ⟨"span", [("class", "local"), ("data-local-id", id)]⟩

end Tag

/-- The number of the next line anchor, and whether it is due before the next character. -/
structure LineState where
  line : UInt32
  atStart : Bool
  deriving DecidableEq

namespace LineState

def first : LineState := ⟨1, true⟩

def anchor (s : LineState) : String × LineState :=
  if s.atStart then ((Tag.ofLine s.line).around "", ⟨s.line + 1, false⟩) else ("", s)

/-- A character behind the anchor that is due; a newline makes the next one due. -/
def char (c : Char) (s : LineState) : String × LineState :=
  let (anchor, s) := s.anchor
  (anchor ++ String.ofList (escapeChar c), if c = '\n' then { s with atStart := true } else s)

def chars : List Char → LineState → String × LineState
  | [], s => ("", s)
  | c :: cs, s =>
    let (written, s) := s.char c
    let (behind, s) := chars cs s
    (written ++ behind, s)

end LineState

def emitter (link : Binding → String) : Emitter LineState String where
  text _ text s := s.chars text.toList
  wrap fact children s := ((Tag.ofFact link fact).around (String.join children), s)

/-- A text that is empty or ends in a newline has one more, empty line. -/
def finish (html : String) (s : LineState) : String × LineState :=
  let (anchor, s) := s.anchor
  (html ++ anchor, s)

def render (link : Binding → String) (text : String) (facts : List Fact) : Except Fault String :=
  match Markup.render (emitter link) text facts .first with
  | .error stop => .error stop.fault
  | .ok (nodes, s) => .ok (finish (String.join nodes) s).1

end CrossRef.Markup.Html
