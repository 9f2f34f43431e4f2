import CrossRef.Json.Printer
import CrossRef.Store

namespace CrossRef.Store

def pairToJson (p : String × String) : Json := .array [.ofString p.1, .ofString p.2]

def pairOfJson? : Json → Option (String × String)
  | .array [a, b] => do return (← a.string?, ← b.string?)
  | _ => none

namespace Tables

def toJson (t : Tables) : Json :=
  .record [("schema_version", .ofNat schemaVersion),
    ("artifacts", .array (t.artifacts.map fun (id, version) =>
      .array [.ofString id, .ofInt version.toInt])),
    ("files", .array (t.files.map fun (id, row) => .array [.ofString id, row.toJson])),
    ("declarations", .array (t.declarations.map fun d => d.row.toJson)),
    ("references", .array (t.references.map fun r => r.row.toJson)),
    ("dependencies", .array (t.dependencies.map pairToJson)),
    ("aliases", .array (t.aliases.map pairToJson))]

def artifactOfJson? : Json → Option (String × Int64)
  | .array [id, version] => do return (← id.string?, ← version.int64?)
  | _ => none

def fileOfJson? : Json → Option (String × SourceRow)
  | .array [id, row] => do return (← id.string?, ← SourceRow.ofJson? row)
  | _ => none

/-- Lookup numbers are not stored; they follow from the bindings. -/
def ofJson? (key : Binding → Int64) (j : Json) : Option Tables := do
  let [schema, artifacts, files, declarations, references, dependencies, aliases] ←
    j.fields? ["schema_version", "artifacts", "files", "declarations", "references",
      "dependencies", "aliases"] | none
  if (← Json.required (Json.nat? UInt32.size) schema) = schemaVersion then
    let declarations ← Json.required (Json.list? DeclarationRow.ofJson?) declarations
    let references ← Json.required (Json.list? ReferenceRow.ofJson?) references
    return {
      artifacts := ← Json.required (Json.list? artifactOfJson?) artifacts
      files := ← Json.required (Json.list? fileOfJson?) files
      declarations := declarations.map fun row => ⟨key row.binding, row⟩
      references := references.map fun row => ⟨key row.target, row⟩
      dependencies := ← Json.required (Json.list? pairOfJson?) dependencies
      aliases := ← Json.required (Json.list? pairOfJson?) aliases }
  else none

end Tables

/-- What a file holds: whether changes to it go through a log, and the tables. Without tables it is
damaged beyond use. -/
structure Image where
  logged : Bool
  tables : Option Tables

namespace Image

/-- The first byte; no UTF-8 text begins with one of these. -/
def mark (logged : Bool) : UInt8 := if logged then 0xff else 0xfe

def ofMark? (b : UInt8) : Option Bool :=
  if b = mark true then some true else if b = mark false then some false else none

def encode (image : Image) : ByteArray :=
  ⟨#[mark image.logged]⟩ ++ (image.tables.elim .null Tables.toJson).compact.toUTF8

def decode? (key : Binding → Int64) (bytes : ByteArray) : Option Image := do
  let logged ← (bytes[0]?).bind ofMark?
  let text ← String.fromUTF8? (bytes.extract 1 bytes.size)
  match ← Json.parse? text with
  | .null => return ⟨logged, none⟩
  | j => return ⟨logged, some (← Tables.ofJson? key j)⟩

/-- Whether a file holds nothing; a single byte is nothing. -/
def isBlank (bytes : ByteArray) : Bool := bytes.size ≤ 1

end Image

end CrossRef.Store
