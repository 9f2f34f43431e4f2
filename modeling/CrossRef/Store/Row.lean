import CrossRef.Json.Decode
import CrossRef.Fact.Json

namespace CrossRef.Store

/-- A stored source text, the digest of the text and the written form of its facts; it is stored
under its artifact, which the other rows name themselves. -/
structure SourceRow where
  path : String
  hash : String
  text : String
  annotations : String
  deriving DecidableEq, Repr

structure DeclarationRow where
  artifact : String
  binding : Binding
  file : String
  isType : Bool
  deriving DecidableEq, Repr

/-- A reference from a line of a file; `id` numbers the references within the file. -/
structure ReferenceRow where
  target : Binding
  kind : ReferenceKind
  artifact : String
  file : String
  line : UInt32
  id : UInt32
  deriving DecidableEq, Repr

namespace SourceRow

def toJson (row : SourceRow) : Json :=
  .record [("path", .ofString row.path), ("hash", .ofString row.hash), ("text", .ofString row.text),
    ("annotations", .ofString row.annotations)]

def ofJson? (j : Json) : Option SourceRow := do
  let [path, hash, text, annotations] ← j.fields? ["path", "hash", "text", "annotations"] | none
  return ⟨← Json.required Json.string? path, ← Json.required Json.string? hash,
    ← Json.required Json.string? text, ← Json.required Json.string? annotations⟩

end SourceRow

namespace DeclarationRow

def toJson (row : DeclarationRow) : Json :=
  .record [("artifact", .ofString row.artifact), ("binding", row.binding.toJson),
    ("source_file", .ofString row.file), ("is_type", .bool row.isType)]

def ofJson? (j : Json) : Option DeclarationRow := do
  let [artifact, binding, file, isType] ←
    j.fields? ["artifact", "binding", "source_file", "is_type"] | none
  return ⟨← Json.required Json.string? artifact, ← Json.required Binding.ofJson? binding,
    ← Json.required Json.string? file, ← Json.required Json.bool? isType⟩

end DeclarationRow

namespace ReferenceRow

def toJson (row : ReferenceRow) : Json :=
  .record [("target", row.target.toJson), ("kind", row.kind.toJson),
    ("source_artifact", .ofString row.artifact), ("source_file", .ofString row.file),
    ("line", .ofNat row.line.toNat), ("source_file_id", .ofNat row.id.toNat)]

def ofJson? (j : Json) : Option ReferenceRow := do
  let [target, kind, artifact, file, line, id] ←
    j.fields? ["target", "kind", "source_artifact", "source_file", "line", "source_file_id"] | none
  return ⟨← Json.required Binding.ofJson? target, ← Json.required ReferenceKind.ofJson? kind,
    ← Json.required Json.string? artifact, ← Json.required Json.string? file,
    ← Json.required Json.uint32? line, ← Json.required Json.uint32? id⟩

end ReferenceRow

end CrossRef.Store
