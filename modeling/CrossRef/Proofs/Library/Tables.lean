import CrossRef.Proofs.Ingest.Rows
import CrossRef.Proofs.Library.Basic
import CrossRef.Proofs.Store.Image
import CrossRef.Proofs.Text.Lines

namespace CrossRef

open Store (Keyed Tables DeclarationRow ReferenceRow)

theorem Text.lineAt_ofText (text : String) (start : UInt32) :
    (LineTable.ofText text).lineAt start.toNat = lineOf text start := by
  rw [LineTable.lineAt, LineTable.startsUpTo_ofText, lineOf]

theorem Binding.isType_eq (b : Binding) :
    b.isType = decide ('#' ∉ b.text.toList ∧ '(' ∉ b.text.toList) := by
  rw [Binding.isType, Bool.eq_iff_iff, List.all_eq_true, decide_eq_true_iff]
  constructor
  · intro h
    constructor
    · intro hmem
      simpa using h '#' hmem
    · intro hmem
      simpa using h '(' hmem
  · rintro ⟨hsign, hparen⟩ c hc
    have hne : c ≠ '#' := fun he => hsign (he ▸ hc)
    have hne' : c ≠ '(' := fun he => hparen (he ▸ hc)
    simp [hne, hne']

namespace Ingest

theorem declarationRows_eq (artifact path : String) (file : SourceFile) :
    declarationRows artifact path file = file.declarationsAt artifact path := by
  apply List.map_congr_left
  intro d _
  simp only [Binding.isType_eq]

theorem referenceRows_eq (artifact path : String) (file : SourceFile) :
    referenceRows artifact path file = file.referencesAt artifact path := by
  apply List.map_congr_left
  intro m _
  rw [Text.lineAt_ofText]

end Ingest

section Owners

variable {ε ρ : Type}

theorem filter_flatMap_of {p : ρ → Bool} {q : ε → Bool} {rows : ε → List ρ} (xs : List ε)
    (h : ∀ e, ∀ r ∈ rows e, p r = q e) :
    (xs.flatMap rows).filter p = (xs.filter q).flatMap rows := by
  induction xs with
  | nil => rfl
  | cons e xs ih =>
    rw [List.flatMap_cons, List.filter_append, ih]
    cases hq : q e with
    | true =>
      rw [List.filter_cons_of_pos hq, List.flatMap_cons,
        List.filter_eq_self.2 fun r hr => (h e r hr).trans hq]
    | false =>
      rw [List.filter_cons_of_neg (by simp [hq]), List.filter_eq_nil_iff.2 fun r hr => ?_,
        List.nil_append]
      simp [h e r hr, hq]

theorem Library.filter_owner (l : Library) (owner : ρ → String) (rows : String × Content → List ρ)
    (h : ∀ e, ∀ r ∈ rows e, owner r = e.1) (artifact : String) :
    (l.toList.flatMap rows).filter (fun r => owner r = artifact) =
      (l.content? artifact).elim [] fun c => rows (artifact, c) := by
  have hkeep := filter_flatMap_of (p := fun r => owner r = artifact)
    (q := fun e => e.1 = artifact) l.toList fun e r hr => by rw [h e r hr]
  have hentry : (l.toList.filter fun e => e.1 = artifact) = (l.get? artifact).toList :=
    l.filter_eq_get? artifact
  rw [hkeep, hentry, content?]
  cases hget : l.get? artifact with
  | none => rfl
  | some e =>
    obtain ⟨-, rfl⟩ := Catalog.mem_of_get? hget
    simp

end Owners

theorem text_le_of_lt {a b : String} (h : a < b) : a ≤ b :=
  (String.le_total a b).resolve_right fun hba => String.not_le.2 h hba

namespace Library

variable (key : Binding → Int64) (l : Library)

def fileRows : List (String × Store.SourceRow) :=
  l.toList.flatMap fun e => e.2.files.toList.map fun f => (e.1, Ingest.sourceRow f.1 f.2)

def declarationRows : List DeclarationRow := l.toList.flatMap fun e => e.2.declarations e.1

def referenceRows : List ReferenceRow := l.toList.flatMap fun e => e.2.references e.1

/-- What the tables hold where artifact after artifact was ingested in ascending order. -/
def tables : Tables where
  artifacts := l.toList.map fun e => (e.1, e.2.version)
  files := l.fileRows
  declarations := l.declarationRows.map fun row => ⟨key row.binding, row⟩
  references := l.referenceRows.map fun row => ⟨key row.target, row⟩
  dependencies := l.toList.flatMap fun e => e.2.dependencies.toList.map fun target => (e.1, target)
  aliases := l.toList.flatMap fun e => e.2.aliases.toList.map fun name => (e.1, name)

theorem keyedBy_tables : (l.tables key).KeyedBy key := by
  constructor
  · intro d hd
    obtain ⟨row, -, rfl⟩ := List.mem_map.1 hd
    rfl
  · intro r hr
    obtain ⟨row, -, rfl⟩ := List.mem_map.1 hr
    rfl

theorem artifact_of_file (e : String × Content) :
    ∀ f ∈ e.2.files.toList.map (fun f => (e.1, Ingest.sourceRow f.1 f.2)), f.1 = e.1 := by
  intro f hf
  obtain ⟨g, -, rfl⟩ := List.mem_map.1 hf
  rfl

theorem fileRows_of (artifact : String) :
    (l.fileRows.filter fun f => f.1 = artifact) = (l.content? artifact).elim [] fun c =>
      c.files.toList.map fun f => (artifact, Ingest.sourceRow f.1 f.2) :=
  l.filter_owner Prod.fst _ artifact_of_file artifact

theorem artifact_of_declaration (e : String × Content) :
    ∀ row ∈ e.2.declarations e.1, row.artifact = e.1 := by
  intro row hrow
  obtain ⟨f, -, hrow⟩ := List.mem_flatMap.1 hrow
  obtain ⟨d, -, rfl⟩ := List.mem_map.1 hrow
  rfl

theorem artifact_of_reference (e : String × Content) :
    ∀ row ∈ e.2.references e.1, row.artifact = e.1 := by
  intro row hrow
  obtain ⟨f, -, hrow⟩ := List.mem_flatMap.1 hrow
  obtain ⟨m, -, rfl⟩ := List.mem_map.1 hrow
  rfl

theorem declarationRows_of (artifact : String) :
    (l.declarationRows.filter fun row => row.artifact = artifact) =
      (l.content? artifact).elim [] (Content.declarations artifact) :=
  l.filter_owner DeclarationRow.artifact _ artifact_of_declaration artifact

theorem referenceRows_of (artifact : String) :
    (l.referenceRows.filter fun row => row.artifact = artifact) =
      (l.content? artifact).elim [] (Content.references artifact) :=
  l.filter_owner ReferenceRow.artifact _ artifact_of_reference artifact

theorem declarationRows_ascending :
    l.declarationRows.Pairwise fun d e => d.artifact ≤ e.artifact := by
  have hacross : ∀ {e e' : String × Content}, e.1 < e'.1 → ∀ d ∈ e.2.declarations e.1,
      ∀ d' ∈ e'.2.declarations e'.1, d.artifact ≤ d'.artifact := by
    intro e e' hlt d hd d' hd'
    rw [artifact_of_declaration e d hd, artifact_of_declaration e' d' hd']
    exact text_le_of_lt hlt
  have hwithin : ∀ e ∈ l.toList, (e.2.declarations e.1).Pairwise fun d d' =>
      d.artifact ≤ d'.artifact := by
    intro e _
    apply List.pairwise_of_forall_mem_list
    intro d hd d' hd'
    have hsame : d.artifact = d'.artifact :=
      (artifact_of_declaration e d hd).trans (artifact_of_declaration e d' hd').symm
    exact hsame ▸ String.le_refl _
  exact List.pairwise_flatMap.2 ⟨hwithin, l.ascending.imp hacross⟩

end Library

theorem sorted_of_ascending {xs : List String} (h : xs.Pairwise fun a b => a < b) :
    Store.sorted xs = xs := by
  have hle : xs.Pairwise fun a b => decide (a ≤ b) = true :=
    h.imp fun hlt => decide_eq_true (text_le_of_lt hlt)
  exact List.mergeSort_of_pairwise hle

theorem sortedOf_pairs (l : Library) (part : Content → TextSet) (artifact : String) :
    Store.sortedOf artifact
        (l.toList.flatMap fun e => (part e.2).toList.map fun text => (e.1, text)) =
      (l.content? artifact).elim [] fun c => (part c).toList := by
  have hrows : ((l.toList.flatMap fun e => (part e.2).toList.map fun text => (e.1, text)).filter
      fun p => p.1 = artifact) =
      (l.content? artifact).elim [] fun c => (part c).toList.map fun text => (artifact, text) := by
    refine l.filter_owner Prod.fst _ ?_ artifact
    intro e p hp
    obtain ⟨text, -, rfl⟩ := List.mem_map.1 hp
    rfl
  change Store.sorted ((List.filter _ _).map Prod.snd) = _
  rw [hrows]
  cases l.content? artifact with
  | none => exact sorted_of_ascending .nil
  | some c =>
    simp only [Option.elim_some, List.map_map, Function.comp_def, List.map_id']
    exact sorted_of_ascending (part c).ascending

/-- Lookup numbers help to find rows and say nothing about which. -/
theorem found_rows {ρ : Type} (key : Binding → Int64) (part : ρ → Binding) (rows : List ρ)
    (b : Binding) :
    (((rows.map fun row => (⟨key (part row), row⟩ : Keyed ρ)).filter fun d => d.key = key b).map
      Keyed.row).filter (fun row => part row = b) = rows.filter fun row => part row = b := by
  simp only [List.filter_map, List.map_map, Function.comp_def, List.map_id', List.filter_filter]
  apply List.filter_congr
  intro row _
  by_cases hrow : part row = b <;> simp [hrow]

section Queries

variable {s : Store} {l : Library} (h : s.tables = l.tables s.key)
include h

theorem artifacts_tables : s.artifacts = l.artifacts := by
  rw [Store.artifacts, h]
  simp only [Library.tables, List.map_map, Function.comp_def]
  exact sorted_of_ascending (List.pairwise_map.2 l.ascending)

theorem artifactVersion?_tables (artifact : String) :
    s.artifactVersion? artifact = l.artifactVersion? artifact := by
  rw [Store.artifactVersion?, h]
  simp only [Library.tables, List.find?_map, Function.comp_def, Option.map_map,
    Library.artifactVersion?, Library.content?, Catalog.get?]

theorem dependencies_tables (artifact : String) :
    s.dependencies artifact = l.dependencies artifact := by
  rw [Store.dependencies, h]
  exact sortedOf_pairs l Content.dependencies artifact

theorem aliases_tables (artifact : String) : s.aliases artifact = l.aliases artifact := by
  rw [Store.aliases, h]
  exact sortedOf_pairs l Content.aliases artifact

theorem filePaths_tables (artifact : String) : s.filePaths artifact = l.filePaths artifact := by
  rw [Store.filePaths, h]
  change Store.sorted ((l.fileRows.filter fun f => f.1 = artifact).map fun f => f.2.path) = _
  rw [l.fileRows_of, Library.filePaths]
  cases l.content? artifact with
  | none => exact sorted_of_ascending .nil
  | some c =>
    simp only [Option.elim_some, List.map_map, Function.comp_def, Ingest.sourceRow]
    exact sorted_of_ascending (List.pairwise_map.2 c.files.ascending)

theorem declarations_tables (artifact : String) :
    s.declarations artifact = l.declarations artifact := by
  have hrows : ((s.tables.declarations.filter fun d => d.row.artifact = artifact).map Keyed.row) =
      (l.content? artifact).elim [] (Content.declarations artifact) := by
    rw [h, ← l.declarationRows_of artifact]
    simp [Library.tables, List.filter_map, Function.comp_def]
  rw [Store.declarations, hrows]
  rfl

theorem referencesTo_tables (b : Binding) : s.referencesTo b = l.referencesTo b := by
  have hrows : (((s.tables.references.filter fun r => r.key = s.key b).map Keyed.row).filter
      fun row => row.target = b) = l.referenceRows.filter fun row => row.target = b := by
    rw [h]
    exact found_rows s.key ReferenceRow.target l.referenceRows b
  rw [Store.referencesTo, hrows]
  rfl

theorem resolve?_tables (b : Binding) : s.resolve? b = l.resolve? b := by
  have hrows : (((s.tables.declarations.filter fun d => d.key = s.key b).map Keyed.row).filter
      fun row => row.binding = b) = l.declarationRows.filter fun row => row.binding = b := by
    rw [h]
    exact found_rows s.key DeclarationRow.binding l.declarationRows b
  have hsorted : (l.declarationRows.filter fun row => row.binding = b).mergeSort
      (fun d e => d.artifact ≤ e.artifact) = l.declarationRows.filter fun row => row.binding = b := by
    have hordered := l.declarationRows_ascending.filter fun row => row.binding = b
    exact List.mergeSort_of_pairwise (hordered.imp fun hle => decide_eq_true hle)
  rw [Store.resolve?, hrows, hsorted, List.head?_filter]
  rfl

theorem status_tables (artifact : String) : s.status artifact = l.status artifact := by
  have hfiles : s.tables.files.countP (fun f => f.1 = artifact) =
      ((l.content? artifact).elim [] fun c => c.files.toList.map fun f =>
        (artifact, Ingest.sourceRow f.1 f.2)).length := by
    rw [h, ← l.fileRows_of, List.countP_eq_length_filter]
    rfl
  have hdeclarations : s.tables.declarations.countP (fun d => d.row.artifact = artifact) =
      ((l.content? artifact).elim [] (Content.declarations artifact)).length := by
    rw [h, ← l.declarationRows_of, ← List.countP_eq_length_filter]
    simp [Library.tables, List.countP_map, Function.comp_def]
  have hreferences : s.tables.references.countP (fun r => r.row.artifact = artifact) =
      ((l.content? artifact).elim [] (Content.references artifact)).length := by
    rw [h, ← l.referenceRows_of, ← List.countP_eq_length_filter]
    simp [Library.tables, List.countP_map, Function.comp_def]
  have hversion := artifactVersion?_tables h artifact
  have hdependencies := dependencies_tables h artifact
  have haliases := aliases_tables h artifact
  rw [Library.artifactVersion?] at hversion
  rw [Library.dependencies] at hdependencies
  rw [Library.aliases] at haliases
  rw [Store.status, Library.status, hversion, hfiles, hdeclarations, hreferences, hdependencies,
    haliases]
  cases l.content? artifact with
  | none => rfl
  | some c => simp [Content.status]

theorem file_tables (artifact path : String) : s.file artifact path = l.file artifact path := by
  have hfound : (s.tables.files.find? fun f => f.1 = artifact ∧ f.2.path = path) =
      ((l.content? artifact).bind fun c => c.files.get? path).map fun f =>
        (artifact, Ingest.sourceRow f.1 f.2) := by
    have hsplit : (s.tables.files.find? fun f => f.1 = artifact ∧ f.2.path = path) =
        (l.fileRows.filter fun f => f.1 = artifact).find? fun f => f.2.path = path := by
      rw [h, List.find?_filter]
      simp [Library.tables]
    rw [hsplit, l.fileRows_of]
    cases l.content? artifact with
    | none => rfl
    | some c =>
      simp only [Option.elim_some, Option.bind_some, List.find?_map]
      rfl
  rw [Store.file, hfound, Library.file]
  cases (l.content? artifact).bind fun c => c.files.get? path with
  | none => rfl
  | some f => simp [Ingest.sourceRow, Fact.facts_stored]

/-- A store with the tables of a library answers as the library does. -/
theorem answers_of_tables : s.Answers l :=
  ⟨artifacts_tables h, artifactVersion?_tables h, status_tables h, declarations_tables h,
    referencesTo_tables h, resolve?_tables h, filePaths_tables h, file_tables h,
    dependencies_tables h, aliases_tables h⟩

end Queries

end CrossRef
