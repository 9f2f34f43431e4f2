import CrossRef.Command.Arguments
import CrossRef.Command.Help
import CrossRef.Ingest
import CrossRef.Markup.Tree.Json
import CrossRef.Settings
import CrossRef.Store.Link
import CrossRef.Store.Opening

namespace CrossRef.Command

structure Reply where
  exit : UInt8
  stdout : String := ""
  stderr : String := ""
  deriving DecidableEq, Repr

/-- What a command came to: what it says in plain words, and what in JSON. -/
structure Report where
  plain : String
  json : Json

def outputVersion : String := "1"

def envelope (command status : String) (data : Json) (issues : List Json) : String :=
  Json.pretty (.record [("schema_version", .ofString outputVersion), ("command", .ofString command),
    ("status", .ofString status), ("data", data), ("issues", .array issues)]) ++ "\n"

def issue (fault : Fault) : Json :=
  .record [("code", .ofString fault.code), ("severity", .ofString "error"),
    ("message", .ofString fault.message)]

def reply (i : Invocation) : Except Fault Report → Reply
  | .ok report =>
    ⟨0, if i.json then envelope i.action.name "ok" report.json [] else report.plain, ""⟩
  | .error fault =>
    if i.json then ⟨fault.exitStatus, envelope i.action.name "error" .null [issue fault], ""⟩
    else ⟨fault.exitStatus, "", "error: " ++ fault.message ++ "\n"⟩

/-- A remark that a quiet run leaves out. -/
def remark (i : Invocation) (text : String) : String := if i.quiet then "" else text ++ "\n"

def ofIngested (i : Invocation) (result : Ingested) : Report :=
  let text := match result with
    | .skipped artifact => s!"{artifact} is up to date (use --force to re-ingest)"
    | .indexed s =>
      s!"indexed {s.artifact}: {s.files} files, " ++
        s!"{s.declarations} declarations, {s.references} references"
  ⟨remark i text, result.toJson⟩

def ofReferences (i : Invocation) (binding : String) (rows : List Store.ReferenceRow) : Report :=
  let lines := rows.map fun r => s!"{r.artifact}/{r.file}:{r.line}  {r.kind.label}\n"
  ⟨if rows = [] then remark i s!"no references to {binding}" else String.join lines,
    .array (rows.map Store.ReferenceRow.toJson)⟩

def ofStatus (s : Store.Status) : Report :=
  let stale := if s.version < compileVersion then " (stale)" else ""
  let listed := fun title names => if names = [] then [] else [title ++ ", ".intercalate names]
  let lines := [
      s!"artifact:      {s.artifact}",
      s!"version:       {s.version}{stale}",
      s!"source files:  {s.files}",
      s!"declarations:  {s.declarations}",
      s!"references:    {s.references}"] ++
    listed "dependencies:  " s.dependencies ++ listed "aliases:       " s.aliases
  ⟨String.join (lines.map (· ++ "\n")), s.toJson⟩

def ofHtml (html : String) : Report := ⟨html ++ "\n", .ofString html⟩

def ofTree (nodes : List Markup.Node) : Report :=
  let j := Json.array (Markup.Node.listToJson nodes)
  ⟨j.pretty ++ "\n", j⟩

variable {m : Type → Type} [Monad m]

/-- Settings of the named file, else of the file in the working directory if there is one. -/
def loadSettings (disk : Disk m) : Option String → m (Except Fault Settings)
  | some name => do return Settings.load (← disk.read (.ofString name)).text?
  | none => do
    match ← disk.read (.ofString Settings.fileName) with
    | .nothing => return .ok {}
    | found => return Settings.load found.text?

/-- A database that is named wins over the one in the settings. -/
def useDatabase (s : Settings) : Option String → Settings
  | some path => { s with store := { s.store with path := path } }
  | none => s

/-- Opens the database; a temporary one is in no file. -/
def openStore (disk : Disk m) (s : Settings) :
    m (Except Fault (Option Store.OpenFile × Store)) := do
  let store : Store := { batchSize := s.ingest.batchSize.toNat }
  match Store.Location.ofName? s.store.path with
  | none => return .error (.storeUnavailable none)
  | some .temporary => return .ok (none, store)
  | some (.file path use) =>
    match ← (Store.openFile disk path use store.key).run with
    | none => return .error (.storeUnavailable none)
    | some (file, tables) => return .ok (some file, { store with tables := tables })

def saveStore (disk : Disk m) (store : Store) : Option Store.OpenFile → m Bool
  | none => return true
  | some file => file.keep disk store.tables

/-- Reads the dump before the database is touched, and keeps the index only if all went well. -/
def ingest (disk : Disk m) (i : Invocation) (s : Settings) (name : String) (force : Bool) :
    m (Except Fault Report) := do
  match (← disk.read (.ofString name)).text? with
  | none => return .error (.inputOutput none)
  | some text =>
    match (Json.parse? text).bind (Dump.ofJson? Json.depthLimit) with
    | none => return .error .malformedRecord
    | some dump =>
      match ← openStore disk s with
      | .error fault => return .error fault
      | .ok (file, store) =>
        let x : Indexer := ⟨store, s.ingest.queueCapacity.toNat⟩
        match x.ingestDump dump force with
        | (.error fault, _) => return .error fault
        | (.ok result, x) =>
          if ← saveStore disk x.store file then return .ok (ofIngested i result)
          else return .error (.storeUnavailable none)

def answer (i : Invocation) (store : Store) : Query → Except Fault Report
  | .render artifact path .html => (store.renderHtml artifact path).map ofHtml
  | .render artifact path .tree => (store.renderTree artifact path).map ofTree
  | .references binding => .ok (ofReferences i binding (store.referencesTo ⟨binding⟩))
  | .status artifact => (store.status artifact).map ofStatus

def ask (disk : Disk m) (i : Invocation) (s : Settings) (q : Query) : m (Except Fault Report) := do
  match ← openStore disk s with
  | .error fault => return .error fault
  | .ok (_, store) => return answer i store q

def invoke (disk : Disk m) (i : Invocation) : m Reply := do
  match ← loadSettings disk i.config with
  | .error fault => return reply i (.error fault)
  | .ok s =>
    let s := useDatabase s i.database
    match i.action with
    | .ingest name force => return reply i (← ingest disk i s name force)
    | .ask q => return reply i (← ask disk i s q)

def versionText : String := "srcxref 0.1.0\n"

/-- Arguments that make no sense are answered by the way to find out more. -/
def usageText : String :=
  "error: invalid arguments\n\nUsage: " ++ Help.usage .program ++
    "\n\nFor more information, try '--help'.\n"

def run (disk : Disk m) (args : List String) : m Reply :=
  match Request.ofArguments args with
  | .usage => return ⟨2, "", usageText⟩
  | .version => return ⟨0, versionText, ""⟩
  | .help topic long => return ⟨0, Help.text topic long, ""⟩
  | .invoke i => invoke disk i

end CrossRef.Command
