import CrossRef.Fact.Json

namespace CrossRef

abbrev FileMap := Catalog (Prod.fst : String × SourceFile → String)

/-- All that a front end reports about one artifact. -/
structure Dump where
  id : String
  dependencies : List String
  aliases : List String
  files : FileMap
  deriving DecidableEq

namespace Dump

def toJson (d : Dump) : Json :=
  .record [("id", .ofString d.id), ("dependencies", .array (d.dependencies.map Json.ofString)),
    ("aliases", .array (d.aliases.map Json.ofString)),
    ("files", .record (d.files.toList.map fun (path, file) => (path, file.toJson)))]

/-- Of several files under one path the last stands. -/
def filesOfJson? (room : Nat) (j : Json) : Option FileMap :=
  (j.pairs? (SourceFile.ofJson? (room - 1))).map Catalog.ofList

def ofJson? (room : Nat) (j : Json) : Option Dump := do
  let [id, dependencies, aliases, files] ←
    j.fields? ["id", "dependencies", "aliases", "files"] | none
  return ⟨← Json.required Json.string? id,
    ← Json.optional [] (Json.list? Json.string?) dependencies,
    ← Json.optional [] (Json.list? Json.string?) aliases,
    ← Json.optional .empty (filesOfJson? (room - 1)) files⟩

end Dump

end CrossRef
