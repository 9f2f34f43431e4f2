import CrossRef.Fault
import CrossRef.Store.Row

namespace CrossRef.Store

/-- A row under its lookup number. -/
structure Keyed (ρ : Type) where
  key : Int64
  row : ρ
  deriving DecidableEq

/-- Rows stand in the order in which they were inserted. Artifacts have the version that they were
ingested by; dependencies and other names belong to the first artifact of the pair. -/
structure Tables where
  artifacts : List (String × Int64) := []
  files : List (String × SourceRow) := []
  declarations : List (Keyed DeclarationRow) := []
  references : List (Keyed ReferenceRow) := []
  dependencies : List (String × String) := []
  aliases : List (String × String) := []
  deriving DecidableEq

/-- A pair is stored once. -/
def insertPair (p : String × String) (ps : List (String × String)) : List (String × String) :=
  if p ∈ ps then ps else ps ++ [p]

namespace Tables

/-- Removes all rows of an artifact; what other artifacts say about it stays. -/
def clear (artifact : String) (t : Tables) : Tables where
  artifacts := t.artifacts.filter fun (id, _) => id ≠ artifact
  files := t.files.filter fun (id, _) => id ≠ artifact
  declarations := t.declarations.filter fun d => d.row.artifact ≠ artifact
  references := t.references.filter fun r => r.row.artifact ≠ artifact
  dependencies := t.dependencies.filter fun (source, _) => source ≠ artifact
  aliases := t.aliases.filter fun (id, _) => id ≠ artifact

def insertArtifact (artifact : String) (version : Int64) (t : Tables) : Except Fault Tables :=
  if t.artifacts.any fun (id, _) => id = artifact then
    .error (.queryFailed "failed to insert artifact: UNIQUE constraint failed: artifacts.id")
  else .ok { t with artifacts := t.artifacts ++ [(artifact, version)] }

def insertFile (artifact : String) (row : SourceRow) (t : Tables) : Except Fault Tables :=
  if t.files.any fun (id, old) => id = artifact ∧ old.path = row.path then
    .error (.queryFailed ("failed to insert source file: " ++
      "UNIQUE constraint failed: sourceFiles.artifactId, sourceFiles.path"))
  else .ok { t with files := t.files ++ [(artifact, row)] }

def insertDependency (artifact target : String) (t : Tables) : Tables :=
  { t with dependencies := insertPair (artifact, target) t.dependencies }

def insertAlias (artifact name : String) (t : Tables) : Tables :=
  { t with aliases := insertPair (artifact, name) t.aliases }

variable (key : Binding → Int64)

/-- An artifact declares a binding once. -/
def insertDeclaration (row : DeclarationRow) (t : Tables) : Except Fault Tables :=
  if t.declarations.any fun d => d.row.artifact = row.artifact ∧ d.row.binding = row.binding then
    .error (.duplicateDeclaration row.artifact row.binding.text row.file)
  else .ok { t with declarations := t.declarations ++ [⟨key row.binding, row⟩] }

/-- Inserts rows one by one; a row that fails leaves the rows before it in place. -/
def insertDeclarations : List DeclarationRow → Tables → Except Fault Unit × Tables
  | [], t => (.ok (), t)
  | row :: rest, t =>
    match t.insertDeclaration key row with
    | .error fault => (.error fault, t)
    | .ok t => insertDeclarations rest t

def insertReferences (rows : List ReferenceRow) (t : Tables) : Tables :=
  { t with references := t.references ++ rows.map fun row => ⟨key row.target, row⟩ }

end Tables

end CrossRef.Store
