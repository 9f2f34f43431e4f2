import CrossRef.Fact.Json
import CrossRef.Markup.Tree

namespace CrossRef.Markup.Node

def shapes : List String := ["text", "annotated"]

mutual

def toJson : Node → Json
  | .text start content =>
    .record [("node", .ofString "text"), ("start", .ofNat start), ("text", .ofString content)]
  | .annotated fact children =>
    .record [("node", .ofString "annotated"), ("start", .ofNat fact.start.toNat),
      ("length", .ofNat fact.length.toNat), ("annotation", fact.payload.toJson),
      ("children", .array (listToJson children))]

def listToJson : List Node → List Json
  | [] => []
  | node :: rest => node.toJson :: listToJson rest

end

/-- Reads a tree of less than `depth` levels; only the outermost node is not part of another. -/
def decode? : Nat → Bool → Json → Option Node
  | 0, _, _ => none
  | depth + 1, within, j => do
    let (shape, body) ← j.untag? "node"
    match ← shape.shape? shapes within with
    | 0 =>
      let [start, content] ← body.fields? ["start", "text"] | none
      return .text (← Json.required (Json.nat? UInt64.size) start)
        (← Json.required Json.string? content)
    | _ =>
      let [start, length, payload, children] ←
        body.fields? ["start", "length", "annotation", "children"] | none
      return .annotated ⟨← Json.required Json.uint32? start, ← Json.required Json.uint32? length,
          ← Json.required (Payload.decode? true) payload⟩
        (← Json.required (Json.list? (decode? depth true)) children)

def ofJson? (room : Nat) (j : Json) : Option Node :=
  if j.fits room then decode? room false j else none

end CrossRef.Markup.Node
