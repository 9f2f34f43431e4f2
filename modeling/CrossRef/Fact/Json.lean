import CrossRef.Fact
import CrossRef.Json.Decode

namespace CrossRef

def ReferenceKind.toJson (k : ReferenceKind) : Json := .ofNat k.id.toNat

def ReferenceKind.ofJson? (j : Json) : Option ReferenceKind := j.uint8?.bind ReferenceKind.ofId?

def Binding.toJson (b : Binding) : Json := .ofString b.text

def Binding.ofJson? (j : Json) : Option Binding := j.string?.map Binding.mk

def TextSet.toJson (s : TextSet) : Json := .array (s.toList.map Json.ofString)

def TextSet.ofJson? (j : Json) : Option TextSet := (j.list? Json.string?).map Catalog.ofList

namespace Payload

def shapes : List String := ["binding-decl", "binding-ref", "style", "lv-ref"]

def toJson : Payload → Json
  | .declaration binding =>
    .record [("type", .ofString "binding-decl"), ("binding", binding.toJson)]
  | .reference binding kind id =>
    .record [("type", .ofString "binding-ref"), ("binding", binding.toJson), ("kind", kind.toJson),
      ("id", .ofNat id.toNat)]
  | .style classes => .record [("type", .ofString "style"), ("classes", TextSet.toJson classes)]
  | .localVariable id => .record [("type", .ofString "lv-ref"), ("local_id", .ofString id)]

/-- Reads a payload that is part of a value taken in whole, or is one itself. -/
def decode? (within : Bool) (j : Json) : Option Payload := do
  let (shape, body) ← j.untag? "type"
  match ← shape.shape? shapes within with
  | 0 =>
    let [binding] ← body.fields? ["binding"] | none
    return .declaration (← Json.required Binding.ofJson? binding)
  | 1 =>
    let [binding, kind, id] ← body.fields? ["binding", "kind", "id"] | none
    return .reference (← Json.required Binding.ofJson? binding)
      (← Json.required ReferenceKind.ofJson? kind) (← Json.required Json.uint32? id)
  | 2 =>
    let [classes] ← body.fields? ["classes"] | none
    return .style (← Json.required TextSet.ofJson? classes)
  | _ =>
    let [id] ← body.fields? ["local_id"] | none
    return .localVariable (← Json.required Json.string? id)

def ofJson? (room : Nat) (j : Json) : Option Payload :=
  if j.fits room then decode? false j else none

end Payload

namespace Fact

def toJson (f : Fact) : Json :=
  .record [("start", .ofNat f.start.toNat), ("length", .ofNat f.length.toNat),
    ("payload", f.payload.toJson)]

def ofJson? (room : Nat) (j : Json) : Option Fact := do
  let [start, length, payload] ← j.fields? ["start", "length", "payload"] | none
  return ⟨← Json.required Json.uint32? start, ← Json.required Json.uint32? length,
    ← Json.required (Payload.ofJson? (room - 1)) payload⟩

def listToJson (facts : List Fact) : Json := .array (facts.map toJson)

def listOfJson? (room : Nat) (j : Json) : Option (List Fact) := j.list? (ofJson? (room - 1))

end Fact

namespace SourceFile

def toJson (file : SourceFile) : Json :=
  .record [("text", .ofString file.text), ("facts", Fact.listToJson file.facts)]

def ofJson? (room : Nat) (j : Json) : Option SourceFile := do
  let [text, facts] ← j.fields? ["text", "facts"] | none
  return ⟨← Json.required Json.string? text,
    ← Json.optional [] (Fact.listOfJson? (room - 1)) facts⟩

end SourceFile

end CrossRef
