import CrossRef.Ingest
import CrossRef.Proofs.Store.Growth

namespace CrossRef

open Feed (Call)

namespace Ingest

def sourceRow (path : String) (file : SourceFile) : Store.SourceRow where
  path := path
  hash := Digest.hex (Digest.ofText file.text)
  text := file.text
  annotations := (Fact.listToJson file.facts).compact

def declarationRows (artifact path : String) (file : SourceFile) : List Store.DeclarationRow :=
  file.declarations.map fun (_, b) => ⟨artifact, b, path, b.isType⟩

def referenceRows (artifact path : String) (file : SourceFile) : List Store.ReferenceRow :=
  file.mentions.map fun m =>
    ⟨m.target, m.kind, artifact, path, (Text.LineTable.ofText file.text).lineAt m.start.toNat, m.id⟩

theorem rows_eq (artifact path : String) (file : SourceFile) :
    rows artifact path file = .insertFile artifact (sourceRow path file) ::
      ((declarationRows artifact path file).map .insertDeclaration ++
        (referenceRows artifact path file).map .insertReference) := by
  simp [rows, sourceRow, declarationRows, referenceRows, Function.comp_def]

variable (artifact path : String) (file : SourceFile)

theorem file?_rows :
    (rows artifact path file).filterMap Call.file? = [(artifact, sourceRow path file)] := by
  simp [rows_eq, Call.file?, List.filterMap_map, Function.comp_def]

theorem declaration?_rows :
    (rows artifact path file).filterMap Call.declaration? = declarationRows artifact path file := by
  simp [rows_eq, Call.declaration?, List.filterMap_map, Function.comp_def, List.filterMap_cons]

theorem reference?_rows :
    (rows artifact path file).filterMap Call.reference? = referenceRows artifact path file := by
  simp [rows_eq, Call.reference?, List.filterMap_map, Function.comp_def, List.filterMap_cons]

theorem dependency?_rows : (rows artifact path file).filterMap Call.dependency? = [] := by
  simp [rows_eq, Call.dependency?, List.filterMap_map, Function.comp_def, List.filterMap_cons]

theorem alias?_rows : (rows artifact path file).filterMap Call.alias? = [] := by
  simp [rows_eq, Call.alias?, List.filterMap_map, Function.comp_def, List.filterMap_cons]

end Ingest

namespace Step

/-- How a step fails; `any` tells whether a file went before it. -/
def fault? (artifact : String) (any : Bool) : Step → Option Fault
  | .file _ source => source.normalize.2
  | .dependency _ => none
  | .name _ => none
  | .finish => if any then none else some (.emptyArtifact artifact)
  | .fail fault => some fault

def isFile : Step → Bool
  | .file .. => true
  | _ => false

/-- The calls of a step that does not fail. -/
def calls (artifact : String) : Step → List Call
  | .file path source => Ingest.rows artifact path source.normalize.1
  | .dependency target => [.insertDependency artifact target]
  | .name alternative => [.insertAlias artifact alternative]
  | .finish => []
  | .fail _ => []

theorem adds_calls (artifact : String) (step : Step) :
    ∀ call ∈ step.calls artifact, call.Adds artifact := by
  intro call hcall
  cases step with
  | file path source =>
    rw [calls, Ingest.rows_eq] at hcall
    rcases List.mem_cons.1 hcall with rfl | hcall
    · rfl
    rcases List.mem_append.1 hcall with hcall | hcall
    · obtain ⟨row, hrow, rfl⟩ := List.mem_map.1 hcall
      obtain ⟨d, -, rfl⟩ := List.mem_map.1 hrow
      rfl
    · obtain ⟨row, hrow, rfl⟩ := List.mem_map.1 hcall
      obtain ⟨m, -, rfl⟩ := List.mem_map.1 hrow
      rfl
  | dependency target =>
    rw [List.mem_singleton.1 hcall]
    rfl
  | name alternative =>
    rw [List.mem_singleton.1 hcall]
    rfl
  | finish => simp [calls] at hcall
  | fail fault => simp [calls] at hcall

theorem adds_flatMap_calls (artifact : String) (steps : List Step) :
    ∀ call ∈ steps.flatMap (calls artifact), call.Adds artifact := by
  intro call hcall
  obtain ⟨step, -, hcall⟩ := List.mem_flatMap.1 hcall
  exact step.adds_calls artifact call hcall

end Step

namespace Ingest

/-- A summary with the rows of more calls. -/
def plus (s : Summary) (calls : List Call) : Summary where
  artifact := s.artifact
  files := s.files + (calls.filterMap Call.file?).length
  declarations := s.declarations + (calls.filterMap Call.declaration?).length
  references := s.references + (calls.filterMap Call.reference?).length

theorem plus_nil (s : Summary) : plus s [] = s := rfl

theorem plus_append (s : Summary) (calls calls' : List Call) :
    plus s (calls ++ calls') = plus (plus s calls) calls' := by
  simp [plus, Nat.add_assoc]

theorem perform_eq (s : Summary) (step : Step) :
    perform s step = match step.fault? s.artifact (s.files ≠ 0) with
      | some fault => .error fault
      | none => .ok (step.calls s.artifact, plus s (step.calls s.artifact)) := by
  cases step with
  | file path source =>
    simp only [perform, Step.fault?, Step.calls]
    cases hn : source.normalize with
    | mk baked fault =>
      cases fault with
      | some fault => rfl
      | none =>
        simp [plus, summarize, file?_rows, declaration?_rows, reference?_rows, declarationRows,
          referenceRows]
  | dependency target => rfl
  | name alternative => rfl
  | finish =>
    by_cases hs : s.files = 0
    · simp [perform, close, Step.fault?, hs, Except.map]
    · simp [perform, close, Step.fault?, hs, Except.map, Step.calls, plus_nil]
  | fail fault => rfl

theorem isFile_eq (artifact : String) (step : Step) :
    step.isFile = decide (((step.calls artifact).filterMap Call.file?).length ≠ 0) := by
  cases step with
  | file path source => simp [Step.isFile, Step.calls, file?_rows]
  | _ => simp [Step.isFile, Step.calls, Call.file?]

end Ingest

end CrossRef
