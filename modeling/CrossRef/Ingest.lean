import CrossRef.Dump
import CrossRef.Fact.Normal
import CrossRef.Feed.Session
import CrossRef.Json.Printer
import CrossRef.Store.Transaction
import CrossRef.Text.Lines

namespace CrossRef

/-- Version of the rows that are written now; artifacts of an older one are stale. -/
def compileVersion : Int64 := 9

structure Summary where
  artifact : String
  files : Nat := 0
  declarations : Nat := 0
  references : Nat := 0
  deriving DecidableEq, Repr

namespace Summary

def members (s : Summary) : List (String × Json) :=
  [("artifact", .ofString s.artifact), ("source_files", .ofNat s.files),
    ("declarations", .ofNat s.declarations), ("references", .ofNat s.references)]

end Summary

/-- How an ingest ended: a current artifact is passed over. -/
inductive Ingested
  | skipped (artifact : String)
  | indexed (summary : Summary)
  deriving DecidableEq, Repr

def Ingested.toJson : Ingested → Json
  | .skipped artifact =>
    .record [("outcome", .ofString "skipped"), ("artifact", .ofString artifact)]
  | .indexed summary => .record (("outcome", .ofString "indexed") :: summary.members)

/-- What a producer may do for an artifact, or how it may fail. -/
inductive Step
  | file (path : String) (file : SourceFile)
  | dependency (target : String)
  | name (alternative : String)
  | finish
  | fail (fault : Fault)

namespace Ingest

open Feed

/-- The rows of a file whose facts are in normal order. A reference stands on the line of its
start. -/
def rows (artifact path : String) (file : SourceFile) : List Call :=
  let lines := Text.LineTable.ofText file.text
  let row : Store.SourceRow := {
    path := path
    hash := Digest.hex (Digest.ofText file.text)
    text := file.text
    annotations := (Fact.listToJson file.facts).compact }
  .insertFile artifact row ::
    (file.declarations.map fun (_, b) => .insertDeclaration ⟨artifact, b, path, b.isType⟩) ++
    file.mentions.map fun m =>
      .insertReference ⟨m.target, m.kind, artifact, path, lines.lineAt m.start.toNat, m.id⟩

def summarize (s : Summary) (file : SourceFile) : Summary :=
  { s with
    files := s.files + 1
    declarations := s.declarations + file.declarations.length
    references := s.references + file.mentions.length }

def close (s : Summary) : Except Fault Summary :=
  if s.files = 0 then .error (.emptyArtifact s.artifact) else .ok s

def perform (s : Summary) : Step → Except Fault (List Call × Summary)
  | .file path file =>
    match file.normalize with
    | (_, some fault) => .error fault
    | (file, none) => .ok (rows s.artifact path file, summarize s file)
  | .dependency target => .ok ([.insertDependency s.artifact target], s)
  | .name alternative => .ok ([.insertAlias s.artifact alternative], s)
  | .finish => (close s).map fun _ => ([], s)
  | .fail fault => .error fault

def performAll (s : Summary) : List Step → Production Summary
  | [] => ⟨[], close s⟩
  | step :: rest =>
    match perform s step with
    | .error fault => ⟨[], .error fault⟩
    | .ok (calls, s) =>
      let production := performAll s rest
      { production with calls := calls ++ production.calls }

/-- All that is sent for an artifact, beginning with the removal of what it had before. -/
def production (artifact : String) (steps : List Step) : Production Summary :=
  let production := performAll { artifact := artifact } steps
  { production with
    calls :=
      .clearArtifact artifact :: .insertArtifact artifact compileVersion :: production.calls }

/-- The steps that a dump stands for; files go in the order of their paths. -/
def stepsOf (d : Dump) : List Step :=
  d.dependencies.map .dependency ++ d.aliases.map .name ++
    d.files.toList.map fun (path, file) => .file path file

end Ingest

structure Indexer where
  store : Store
  queueCapacity : Nat

namespace Indexer

def ingest (x : Indexer) (artifact : String) (steps : List Step) : Except Fault Summary × Indexer :=
  let (result, store) :=
    Store.provider.session artifact x.queueCapacity (Ingest.production artifact steps) x.store
  (result, { x with store := store })

def ingestIfStale (x : Indexer) (artifact : String) (steps : List Step) :
    Except Fault Ingested × Indexer :=
  if x.store.needsRecompile artifact compileVersion then
    let (result, x) := x.ingest artifact steps
    (result.map .indexed, x)
  else (.ok (.skipped artifact), x)

/-- Ingests a dump; with `force` also one of a current artifact. -/
def ingestDump (x : Indexer) (d : Dump) (force : Bool) : Except Fault Ingested × Indexer :=
  if force then
    let (result, x) := x.ingest d.id (Ingest.stepsOf d)
    (result.map .indexed, x)
  else x.ingestIfStale d.id (Ingest.stepsOf d)

end Indexer

end CrossRef
