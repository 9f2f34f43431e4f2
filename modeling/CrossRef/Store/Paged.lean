import CrossRef.Paged.Room
import CrossRef.Paged.Schema
import CrossRef.Store.Image

namespace CrossRef.Store

open Paged (File Schema Value Encoding)

namespace Tables

def layout : List (String × List String) :=
  [("schema_version", ["version"]),
    ("artifacts", ["id", "lastCompileVersion"]),
    ("bindings", ["artifactId", "binding", "bindingHash", "sourceFile", "isType"]),
    ("binding_references", ["targetBinding", "targetHash", "type", "sourceArtifactId", "sourceFile",
      "sourceFileLine", "sourceFileId"]),
    ("sourceFiles", ["artifactId", "path", "hash", "text", "annotations"]),
    ("dependencies", ["fromArtifactId", "toArtifactId"]),
    ("artifact_aliases", ["artifactId", "alias"])]

def indexNames : List String :=
  ["idx_bindings_artifact", "idx_bindings_hash", "idx_refs_target", "idx_refs_source"]

/-- Whether no name that is needed has another use. -/
def namesAreFree (schema : Schema) : Bool :=
  layout.all (fun (name, _) => name.toLower ∉ schema.views ∧ name.toLower ∉ schema.indexes) &&
    indexNames.all fun name => !schema.hasTable name

def isAsked : List Value → Bool
  | .text _ :: _ => true
  | _ => false

/-- The rows of a table, with the values of its columns in the order of the layout; none if there is
no such table. A column that is not there, or an index without a page, makes the table unusable. -/
def rowsOf? (file : File) (schema : Schema) (name : String) : Option (List (List Value)) :=
  match schema.table? name.toLower, layout.lookup name with
  | some table, some columns => do
    guard (!table.byKey)
    guard (!schema.awaitsIndex table)
    let places ← columns.mapM fun column => table.columns.idxOf? column.toLower
    let rows ← file.rows? table.root table.columns.length
    return (rows.map fun row => places.map fun i => row.getD i .null).filter isAsked
  | _, _ => some []

/-- Whether the version of the tables is there or can be stored; it is alone in its table. -/
def versionIsKept (file : File) (schema : Schema) : Bool :=
  match schema.table? "schema_version" with
  | none => true
  | some table =>
    table.columns.length = 1 && !table.byKey && !schema.awaitsIndex table &&
      match file.rows? table.root 1 with
      | none => false
      | some rows => rows ≠ [] || file.canExtend table.root

def textOf? (encoding : Encoding) : Value → Option String
  | .text bytes => encoding.decode? bytes
  | _ => none

def pairOf? (encoding : Encoding) : List Value → Option (String × String)
  | [a, b] => do return (← textOf? encoding a, ← textOf? encoding b)
  | _ => none

def artifactOf? (encoding : Encoding) : List Value → Option (String × Int64)
  | [id, .int version] => do return (← textOf? encoding id, Int64.ofInt version)
  | _ => none

def fileOf? (encoding : Encoding) (row : List Value) : Option (String × SourceRow) := do
  let [id, path, hash, text, annotations] ← row.mapM (textOf? encoding) | none
  return (id, ⟨path, hash, text, annotations⟩)

def declarationOf? (encoding : Encoding) : List Value → Option (Keyed DeclarationRow)
  | [artifact, binding, .int key, file, .int isType] => do
    let row : DeclarationRow := ⟨← textOf? encoding artifact, ⟨← textOf? encoding binding⟩,
      ← textOf? encoding file, isType ≠ 0⟩
    return ⟨Int64.ofInt key, row⟩
  | _ => none

def uint32? (n : Int) : Option UInt32 :=
  if 0 ≤ n ∧ n < UInt32.size then some (UInt32.ofNat n.toNat) else none

def referenceOf? (encoding : Encoding) : List Value → Option (Keyed ReferenceRow)
  | [target, .int key, .int kind, artifact, file, .int line, .int id] => do
    guard (0 ≤ kind ∧ kind < UInt8.size)
    let row : ReferenceRow := ⟨⟨← textOf? encoding target⟩,
      ← ReferenceKind.ofId? (UInt8.ofNat kind.toNat), ← textOf? encoding artifact,
      ← textOf? encoding file, ← uint32? line, ← uint32? id⟩
    return ⟨Int64.ofInt key, row⟩
  | _ => none

/-- What there is of the tables of an index, in a file to which the rest could be added. -/
def ofPages? (file : File) (schema : Schema) : Option Tables := do
  guard (file.canGrow && file.canExtend Schema.root)
  guard (namesAreFree schema && versionIsKept file schema)
  let rows := rowsOf? file schema
  let encoding := file.encoding
  return {
    artifacts := ← (← rows "artifacts").mapM (artifactOf? encoding)
    files := ← (← rows "sourceFiles").mapM (fileOf? encoding)
    declarations := ← (← rows "bindings").mapM (declarationOf? encoding)
    references := ← (← rows "binding_references").mapM (referenceOf? encoding)
    dependencies := ← (← rows "dependencies").mapM (pairOf? encoding)
    aliases := ← (← rows "artifact_aliases").mapM (pairOf? encoding) }

end Tables

namespace Image

/-- A file of pages whose list of things cannot be read is none at all. -/
def ofPages? (bytes : ByteArray) : Option Image := do
  let file ← File.ofBytes? bytes
  let schema ← Schema.ofFile? file
  return ⟨file.logged, Tables.ofPages? file schema⟩

/-- What a file holds; one that holds nothing is an index without a log. -/
def ofFile? (key : Binding → Int64) (bytes : ByteArray) : Option Image :=
  if isBlank bytes then some ⟨false, some {}⟩ else decode? key bytes <|> ofPages? bytes

end Image

end CrossRef.Store
