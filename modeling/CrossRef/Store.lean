import CrossRef.Json.Reader
import CrossRef.Store.Tables

namespace CrossRef

/-- The index: tables, the numbers of bindings, and how many rows a transaction holds back. Bindings
are looked up by number first and by text among the rows of that number, so two may share one. -/
structure Store where
  key : Binding → Int64 := Binding.key
  batchSize : Nat := 100
  tables : Store.Tables := {}

namespace Store

def schemaVersion : Nat := 1

structure Status where
  artifact : String
  version : Int64
  files : Nat
  declarations : Nat
  references : Nat
  dependencies : List String
  aliases : List String
  deriving DecidableEq, Repr

namespace Status

def toJson (s : Status) : Json :=
  .record [("id", .ofString s.artifact), ("compile_version", .ofInt s.version.toInt),
    ("source_files", .ofNat s.files), ("declarations", .ofNat s.declarations),
    ("references", .ofNat s.references),
    ("dependencies", .array (s.dependencies.map Json.ofString)),
    ("aliases", .array (s.aliases.map Json.ofString))]

end Status

def sorted (xs : List String) : List String := xs.mergeSort fun a b => a ≤ b

/-- The second parts of the pairs of an artifact, in ascending order. -/
def sortedOf (artifact : String) (pairs : List (String × String)) : List String :=
  sorted ((pairs.filter fun (id, _) => id = artifact).map Prod.snd)

variable (s : Store)

def artifactVersion? (artifact : String) : Option Int64 :=
  (s.tables.artifacts.find? fun (id, _) => id = artifact).map Prod.snd

def needsRecompile (artifact : String) (version : Int64) : Bool :=
  match s.artifactVersion? artifact with
  | some last => last < version
  | none => true

def artifacts : List String := sorted (s.tables.artifacts.map Prod.fst)

def dependencies (artifact : String) : List String := sortedOf artifact s.tables.dependencies

def aliases (artifact : String) : List String := sortedOf artifact s.tables.aliases

def status (artifact : String) : Except Fault Status :=
  match s.artifactVersion? artifact with
  | none => .error (.artifactNotFound artifact)
  | some version => .ok {
      artifact := artifact
      version := version
      files := s.tables.files.countP fun (id, _) => id = artifact
      declarations := s.tables.declarations.countP fun d => d.row.artifact = artifact
      references := s.tables.references.countP fun r => r.row.artifact = artifact
      dependencies := s.dependencies artifact
      aliases := s.aliases artifact }

def declarations (artifact : String) : List DeclarationRow :=
  let rows := (s.tables.declarations.filter fun d => d.row.artifact = artifact).map Keyed.row
  rows.mergeSort fun d e => d.binding.text ≤ e.binding.text

/-- By artifact, file, line and number within the file. -/
def ReferenceRow.precedes (r q : ReferenceRow) : Bool :=
  if r.artifact ≠ q.artifact then r.artifact ≤ q.artifact
  else if r.file ≠ q.file then r.file ≤ q.file
  else if r.line ≠ q.line then r.line ≤ q.line
  else r.id ≤ q.id

/-- All references to a binding; those that no sort key tells apart stand as they were inserted. -/
def referencesTo (b : Binding) : List ReferenceRow :=
  let found := s.tables.references.filter fun r => r.key = s.key b
  let rows := (found.map Keyed.row).filter fun row => row.target = b
  rows.mergeSort ReferenceRow.precedes

/-- The declaration of a binding in the first artifact that has one. -/
def resolve? (b : Binding) : Option DeclarationRow :=
  let found := s.tables.declarations.filter fun d => d.key = s.key b
  let rows := (found.map Keyed.row).filter fun row => row.binding = b
  (rows.mergeSort fun d e => d.artifact ≤ e.artifact).head?

def filePaths (artifact : String) : List String :=
  sorted ((s.tables.files.filter fun (id, _) => id = artifact).map fun (_, row) => row.path)

def file (artifact path : String) : Except Fault SourceFile :=
  match s.tables.files.find? fun (id, row) => id = artifact ∧ row.path = path with
  | none => .error (.fileNotFound artifact path)
  | some (_, row) =>
    match (Json.parse? row.annotations).bind (Fact.listOfJson? Json.depthLimit) with
    | some facts => .ok ⟨row.text, facts⟩
    | none => .error .malformedRecord

end Store

end CrossRef
