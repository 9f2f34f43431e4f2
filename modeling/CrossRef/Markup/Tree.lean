import CrossRef.Markup.Walk

namespace CrossRef.Markup

/-- A run of text with the number of bytes before it, or a fact around the nodes of its range. -/
inductive Node
  | text (start : Nat) (text : String)
  | annotated (fact : Fact) (children : List Node)

namespace Node

/-- Nodes are the values themselves and nothing is kept between them. -/
def emitter : Emitter Unit Node where
  text offset text state := (.text offset text, state)
  wrap fact children state := (.annotated fact children, state)

end Node

def renderTree (text : String) (facts : List Fact) : Except Fault (List Node) :=
  match render Node.emitter text facts () with
  | .error stop => .error stop.fault
  | .ok (nodes, _) => .ok nodes

end CrossRef.Markup
