import CrossRef.Markup.Walk

namespace CrossRef.Markup

/-- A call on an emitter. A node is the number of the call that made it. -/
inductive Event
  | text (offset : Nat) (text : String)
  | wrap (fact : Fact) (children : List Nat)

namespace Event

def log (event : Event) (events : Array Event) : Nat × Array Event :=
  (events.size, events.push event)

def emitter : Emitter (Array Event) Nat where
  text offset text := log (.text offset text)
  wrap fact children := log (.wrap fact children)

end Event

/-- The calls of a walk, also of one that stopped, and the nodes of the outermost level. -/
def renderEvents (text : String) (facts : List Fact) : Except Fault (List Nat) × List Event :=
  match render Event.emitter text facts #[] with
  | .error stop => (.error stop.fault, stop.state.toList)
  | .ok (nodes, events) => (.ok nodes, events.toList)

end CrossRef.Markup
