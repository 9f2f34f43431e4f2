import CrossRef.Fault
import CrossRef.Json.Decode
import CrossRef.Toml.Reader

namespace CrossRef

/-- The database file and how many milliseconds a writer waits for it. -/
structure StoreSettings where
  path : String := "srcxref.db"
  busyTimeout : UInt64 := 5000
  deriving DecidableEq, Repr

/-- Slots of the queue to the writer, and rows that are held back before they are stored. -/
structure IngestSettings where
  queueCapacity : UInt64 := 16
  batchSize : UInt64 := 100
  deriving DecidableEq, Repr

structure LogSettings where
  filter : String := "info"
  deriving DecidableEq, Repr

/-- What is left out stands at its default, and what no setting is called is passed over. -/
structure Settings where
  store : StoreSettings := {}
  ingest : IngestSettings := {}
  log : LogSettings := {}
  deriving DecidableEq, Repr

namespace Toml

/-- The values of the fields `names`, in that order: of a table by key, of an array by position. A
date-time is a value that has none of these fields. -/
def fields? (names : List String) : Toml → Option (List (Option Toml))
  | .table members =>
    some (names.map fun name => (members.find? fun (key, _) => key = name).map Prod.snd)
  | .array items =>
    let given := items.take names.length
    some (given.map some ++ List.replicate (names.length - given.length) none)
  | .dateTime => some (names.map fun _ => none)
  | _ => none

def string? : Toml → Option String
  | .string s => some s
  | _ => none

def uint64? : Toml → Option UInt64
  | .integer n => if 0 ≤ n ∧ n < UInt64.size then some (UInt64.ofNat n.toNat) else none
  | _ => none

def optional {α : Type} (default : α) (value? : Toml → Option α) : Option Toml → Option α
  | none => some default
  | some v => value? v

end Toml

namespace StoreSettings

def ofToml? (v : Toml) : Option StoreSettings := do
  let [path, timeout] ← v.fields? ["path", "busy_timeout_ms"] | none
  let base : StoreSettings := {}
  return ⟨← Toml.optional base.path Toml.string? path,
    ← Toml.optional base.busyTimeout Toml.uint64? timeout⟩

def toJson (s : StoreSettings) : Json :=
  .record [("path", .ofString s.path), ("busy_timeout_ms", .ofNat s.busyTimeout.toNat)]

def ofJson? (j : Json) : Option StoreSettings := do
  let [path, timeout] ← j.fields? ["path", "busy_timeout_ms"] | none
  let base : StoreSettings := {}
  return ⟨← Json.optional base.path Json.string? path,
    ← Json.optional base.busyTimeout Json.uint64? timeout⟩

end StoreSettings

namespace IngestSettings

def ofToml? (v : Toml) : Option IngestSettings := do
  let [capacity, batch] ← v.fields? ["queue_capacity", "batch_size"] | none
  let base : IngestSettings := {}
  return ⟨← Toml.optional base.queueCapacity Toml.uint64? capacity,
    ← Toml.optional base.batchSize Toml.uint64? batch⟩

def toJson (s : IngestSettings) : Json :=
  .record [("queue_capacity", .ofNat s.queueCapacity.toNat),
    ("batch_size", .ofNat s.batchSize.toNat)]

def ofJson? (j : Json) : Option IngestSettings := do
  let [capacity, batch] ← j.fields? ["queue_capacity", "batch_size"] | none
  let base : IngestSettings := {}
  return ⟨← Json.optional base.queueCapacity Json.uint64? capacity,
    ← Json.optional base.batchSize Json.uint64? batch⟩

end IngestSettings

namespace LogSettings

def ofToml? (v : Toml) : Option LogSettings := do
  let [filter] ← v.fields? ["filter"] | none
  let base : LogSettings := {}
  return ⟨← Toml.optional base.filter Toml.string? filter⟩

def toJson (s : LogSettings) : Json := .record [("filter", .ofString s.filter)]

def ofJson? (j : Json) : Option LogSettings := do
  let [filter] ← j.fields? ["filter"] | none
  let base : LogSettings := {}
  return ⟨← Json.optional base.filter Json.string? filter⟩

end LogSettings

namespace Settings

def fileName : String := "srcxref.toml"

def ofToml? (v : Toml) : Option Settings := do
  let [store, ingest, log] ← v.fields? ["store", "ingest", "log"] | none
  return ⟨← Toml.optional {} StoreSettings.ofToml? store,
    ← Toml.optional {} IngestSettings.ofToml? ingest,
    ← Toml.optional {} LogSettings.ofToml? log⟩

def toJson (s : Settings) : Json :=
  .record [("store", s.store.toJson), ("ingest", s.ingest.toJson), ("log", s.log.toJson)]

def ofJson? (j : Json) : Option Settings := do
  let [store, ingest, log] ← j.fields? ["store", "ingest", "log"] | none
  return ⟨← Json.optional {} StoreSettings.ofJson? store,
    ← Json.optional {} IngestSettings.ofJson? ingest,
    ← Json.optional {} LogSettings.ofJson? log⟩

def check (s : Settings) : Except Fault Settings :=
  if s.ingest.queueCapacity = 0 then
    .error (.badSettings "ingest.queue_capacity must be at least 1")
  else if s.ingest.batchSize = 0 then
    .error (.badSettings "ingest.batch_size must be at least 1")
  else .ok s

def ofText (text : String) : Except Fault Settings :=
  match (Toml.parse? text).bind ofToml? with
  | some s => s.check
  | none => .error (.badSettings "failed to parse config file")

/-- Settings out of a file, given its text unless it cannot be read. -/
def load : Option String → Except Fault Settings
  | some text => ofText text
  | none => .error (.badSettings "failed to read config file")

end Settings

end CrossRef
