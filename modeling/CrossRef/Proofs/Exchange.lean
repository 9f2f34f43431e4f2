import CrossRef.Proofs.Library.Renewal
import CrossRef.Proofs.Markup.Roundtrip

namespace CrossRef

open Json (isWhole record isWhole_record isWhole_list fields?_record list?_array pairs?_record)

/-- How the values of a type stand in JSON. -/
structure Format (α : Type) where
  toJson : α → Json
  ofJson? : Json → Option α

namespace Format

variable {α : Type}

def encode (f : Format α) (v : α) : String := (f.toJson v).compact

def decode? (f : Format α) (text : String) : Option α := (Json.parse? text).bind f.ofJson?

/-- A text in the wording of the format. -/
def reencode? (f : Format α) (text : String) : Option String := (f.decode? text).map f.encode

/-- Values that are admissible pass through texts unharmed, and so does all that is accepted. -/
structure Faithful (f : Format α) (Admissible : α → Prop) : Prop where
  decode_encode : ∀ v, Admissible v → f.decode? (f.encode v) = some v
  decode_again : ∀ text v, f.decode? text = some v → f.decode? (f.encode v) = some v
  settles : ∀ text text', f.reencode? text = some text' → f.reencode? text' = some text'

/-- What a format owes to be faithful: its values are written without fractions, are read as they
were written, and nothing else is read. -/
structure Lossless (f : Format α) (Admissible : α → Prop) : Prop where
  whole : ∀ v, isWhole (f.toJson v) = true
  ofJson?_toJson : ∀ v, Admissible v → f.ofJson? (f.toJson v) = some v
  admissible : ∀ j v, f.ofJson? j = some v → Admissible v

theorem Lossless.faithful {f : Format α} {Admissible : α → Prop} (h : f.Lossless Admissible) :
    f.Faithful Admissible := by
  have hdecode : ∀ v, Admissible v → f.decode? (f.encode v) = some v := by
    intro v hv
    rw [decode?, encode, Json.parse?_compact _ (h.whole v), Option.bind_some, h.ofJson?_toJson v hv]
  have hagain : ∀ text v, f.decode? text = some v → f.decode? (f.encode v) = some v := by
    intro text v hv
    obtain ⟨j, -, hj⟩ := Option.bind_eq_some_iff.1 hv
    exact hdecode v (h.admissible j v hj)
  refine ⟨hdecode, hagain, ?_⟩
  intro text text' htext
  obtain ⟨v, hv, rfl⟩ := Option.map_eq_some_iff.1 htext
  rw [reencode?, hagain text v hv, Option.map_some]

theorem Lossless.of_all {f : Format α} (hwhole : ∀ v, isWhole (f.toJson v) = true)
    (h : ∀ v, f.ofJson? (f.toJson v) = some v) : f.Lossless fun _ => True :=
  ⟨hwhole, fun v _ => h v, fun _ _ _ => trivial⟩

end Format

namespace Dump

theorem filesOfJson?_record {room : Nat} (h : 6 ≤ room) (files : FileMap) :
    filesOfJson? room (record (files.toList.map fun f => (f.1, f.2.toJson))) = some files := by
  have hroom : 5 ≤ room - 1 := by omega
  have hpairs := pairs?_record (SourceFile.ofJson?_toJson hroom) files.toList
  rw [filesOfJson?, hpairs, Option.map_some, Catalog.ofList_toList]

theorem isWhole_toJson (d : Dump) : isWhole d.toJson = true := by
  apply isWhole_record
  intro m hm
  simp only [List.mem_cons, List.not_mem_nil, or_false] at hm
  rcases hm with rfl | rfl | rfl | rfl
  · rfl
  · exact isWhole_list (fun _ => rfl) d.dependencies
  · exact isWhole_list (fun _ => rfl) d.aliases
  · apply isWhole_record
    intro m hm
    obtain ⟨f, -, rfl⟩ := List.mem_map.1 hm
    exact f.2.isWhole_toJson

theorem ofJson?_toJson {room : Nat} (h : 7 ≤ room) (d : Dump) : ofJson? room d.toJson = some d := by
  have hroom : 6 ≤ room - 1 := by omega
  have hfiles := filesOfJson?_record hroom d.files
  have htexts := list?_array Json.string?_ofString
  have hfields := fields?_record [("id", .ofString d.id),
    ("dependencies", .array (d.dependencies.map Json.ofString)),
    ("aliases", .array (d.aliases.map Json.ofString)),
    ("files", record (d.files.toList.map fun f => (f.1, f.2.toJson)))] (by simp)
  simp only [List.map_cons, List.map_nil] at hfields
  simp [ofJson?, toJson, hfields, Json.required, Json.optional, Json.string?_ofString, hfiles,
    htexts]

end Dump

namespace Format

def payload : Format Payload := ⟨Payload.toJson, Payload.ofJson? Json.depthLimit⟩

def fact : Format Fact := ⟨Fact.toJson, Fact.ofJson? Json.depthLimit⟩

def facts : Format (List Fact) := ⟨Fact.listToJson, Fact.listOfJson? Json.depthLimit⟩

def sourceFile : Format SourceFile := ⟨SourceFile.toJson, SourceFile.ofJson? Json.depthLimit⟩

def dump : Format Dump := ⟨Dump.toJson, Dump.ofJson? Json.depthLimit⟩

def sourceRow : Format Store.SourceRow := ⟨Store.SourceRow.toJson, Store.SourceRow.ofJson?⟩

def declarationRow : Format Store.DeclarationRow :=
  ⟨Store.DeclarationRow.toJson, Store.DeclarationRow.ofJson?⟩

def referenceRow : Format Store.ReferenceRow :=
  ⟨Store.ReferenceRow.toJson, Store.ReferenceRow.ofJson?⟩

def tree : Format Markup.Node := ⟨Markup.Node.toJson, Markup.Node.ofJson? Json.depthLimit⟩

theorem payload_lossless : payload.Lossless fun _ => True :=
  .of_all Payload.isWhole_toJson (Payload.ofJson?_toJson (by decide))

theorem fact_lossless : fact.Lossless fun _ => True :=
  .of_all Fact.isWhole_toJson (Fact.ofJson?_toJson (by decide))

theorem facts_lossless : facts.Lossless fun _ => True :=
  .of_all Fact.isWhole_listToJson (Fact.listOfJson?_listToJson (by decide))

theorem sourceFile_lossless : sourceFile.Lossless fun _ => True :=
  .of_all SourceFile.isWhole_toJson (SourceFile.ofJson?_toJson (by decide))

theorem dump_lossless : dump.Lossless fun _ => True :=
  .of_all Dump.isWhole_toJson (Dump.ofJson?_toJson (by decide))

theorem sourceRow_lossless : sourceRow.Lossless fun _ => True :=
  .of_all (fun _ => rfl) Store.SourceRow.ofJson?_toJson

theorem declarationRow_lossless : declarationRow.Lossless fun _ => True :=
  .of_all Store.DeclarationRow.isWhole_toJson Store.DeclarationRow.ofJson?_toJson

theorem referenceRow_lossless : referenceRow.Lossless fun _ => True :=
  .of_all Store.ReferenceRow.isWhole_toJson Store.ReferenceRow.ofJson?_toJson

theorem tree_lossless : tree.Lossless fun node =>
    node.InRange ∧ node.toJson.depth ≤ Json.depthLimit :=
  ⟨Markup.Node.isWhole_toJson, fun _ hnode => Markup.Node.ofJson?_toJson hnode.1 hnode.2,
    fun _ _ h => Markup.Node.admissible_of_ofJson? h⟩

end Format

/-- A file that was ingested is read back with its facts in normal order. -/
theorem Ingest.Renewed.file {x y : Indexer} {artifact : String} {steps : List Step}
    {summary : Summary} (h : Renewed x artifact steps summary y) {path : String}
    {source : SourceFile} (hstep : Step.file path source ∈ steps) :
    y.store.file artifact path = .ok source.normalize.1 := by
  let renewed := x.store.tables.renew x.store.key artifact compileVersion
  let calls := steps.flatMap (Step.calls artifact)
  let t : Store := { x.store with tables := renewed.extendAll x.store.key calls }
  have hfiles : t.tables.files = renewed.files ++ calls.filterMap Feed.Call.file? := by
    simp only [t]
    rw [Store.Tables.extendAll_eq x.store.key artifact calls renewed
      (Step.adds_flatMap_calls artifact steps)]
  have hold : renewed.files.find? (fun f => f.1 = artifact ∧ f.2.path = path) = none := by
    refine List.find?_eq_none.2 fun f hf hfound => ?_
    have hother : f.1 ≠ artifact := of_decide_eq_true (List.mem_filter.1 hf).2
    exact hother (of_decide_eq_true hfound).1
  have hnew : (calls.filterMap Feed.Call.file?).find? (fun f => f.1 = artifact ∧ f.2.path = path) =
      some (artifact, sourceRow path source.normalize.1) := by
    have hbaked : (path, source.normalize.1) ∈ steps.filterMap Step.baked? :=
      List.mem_filterMap.2 ⟨_, hstep, rfl⟩
    have hget : (Content.ofSteps steps).files.get? path = some (path, source.normalize.1) :=
      Catalog.get?_eq_some_iff.2 ⟨(files_ofSteps h.free).mem_iff.2 hbaked, rfl⟩
    rw [(alike_files h.free).find? (artifact, path) (by simp +contextual), List.find?_map]
    have hfound := congrArg (Option.map fun f => (artifact, sourceRow f.1 f.2)) hget
    simpa [Catalog.get?, Function.comp_def, sourceRow] using hfound
  have hfile : t.file artifact path = .ok source.normalize.1 := by
    rw [Store.file, hfiles, List.find?_append, hold, Option.none_or, hnew]
    simp [sourceRow, Fact.facts_stored]
  rw [← hfile]
  exact Store.file_alike h.tables artifact path

/-- In every format, decoding undoes encoding, what is accepted stays the same however often it is
written and read, and writing settles at once; a tree may nest as deep as a reader follows. The
facts that an ingest stores with a file are the facts that the index gives back. -/
theorem formats_faithful :
    Format.payload.Faithful (fun _ => True) ∧ Format.fact.Faithful (fun _ => True) ∧
    Format.facts.Faithful (fun _ => True) ∧ Format.sourceFile.Faithful (fun _ => True) ∧
    Format.dump.Faithful (fun _ => True) ∧ Format.sourceRow.Faithful (fun _ => True) ∧
    Format.declarationRow.Faithful (fun _ => True) ∧
    Format.referenceRow.Faithful (fun _ => True) ∧
    Format.tree.Faithful (fun node => node.InRange ∧ node.toJson.depth ≤ Json.depthLimit) ∧
    ∀ (x y : Indexer) (artifact : String) (steps : List Step) (summary : Summary),
      x.ingest artifact steps = (.ok summary, y) →
      ∀ path source, Step.file path source ∈ steps →
        y.store.file artifact path = .ok source.normalize.1 := by
  refine ⟨Format.payload_lossless.faithful, Format.fact_lossless.faithful,
    Format.facts_lossless.faithful, Format.sourceFile_lossless.faithful,
    Format.dump_lossless.faithful, Format.sourceRow_lossless.faithful,
    Format.declarationRow_lossless.faithful, Format.referenceRow_lossless.faithful,
    Format.tree_lossless.faithful, ?_⟩
  intro x y artifact steps summary hrun path source hstep
  rw [Ingest.ingest_eq_deliver] at hrun
  rcases Ingest.deliver_cases x (Ingest.production_delivers artifact steps) with
    ⟨fault, hfault⟩ | ⟨summary', y', hdeliver, hrenewed⟩
  · rw [hfault] at hrun
    simp at hrun
  · obtain ⟨-, rfl⟩ := Prod.mk.inj (hdeliver.symm.trans hrun)
    exact hrenewed.file hstep

end CrossRef
