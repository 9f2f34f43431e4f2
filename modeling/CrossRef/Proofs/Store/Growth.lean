import CrossRef.Proofs.Store.Buffer
import CrossRef.Proofs.Store.Queries

namespace CrossRef

namespace Feed.Call

/-- A call that adds to what there is of an artifact. -/
def Adds (artifact : String) : Call → Prop
  | .clearArtifact _ => False
  | .insertArtifact _ _ => False
  | call => call.artifact = artifact

theorem Adds.artifact_eq {artifact : String} {call : Call} (h : call.Adds artifact) :
    call.artifact = artifact := by
  cases call with
  | clearArtifact a => exact h.elim
  | insertArtifact a version => exact h.elim
  | _ => exact h

/-- The row that a call adds to a table. -/
def file? : Call → Option (String × Store.SourceRow)
  | .insertFile artifact row => some (artifact, row)
  | _ => none

def declaration? : Call → Option Store.DeclarationRow
  | .insertDeclaration row => some row
  | _ => none

def reference? : Call → Option Store.ReferenceRow
  | .insertReference row => some row
  | _ => none

def dependency? : Call → Option (String × String)
  | .insertDependency artifact target => some (artifact, target)
  | _ => none

def alias? : Call → Option (String × String)
  | .insertAlias artifact name => some (artifact, name)
  | _ => none

section Owners

variable {artifact : String} {calls : List Call} (hc : ∀ call ∈ calls, call.Adds artifact)
include hc

theorem owner_of_row {ρ : Type} {row? : Call → Option ρ} {owner : ρ → String}
    (h : ∀ call r, row? call = some r → call.artifact = owner r) :
    ∀ r ∈ calls.filterMap row?, owner r = artifact := by
  intro r hr
  obtain ⟨call, hcall, he⟩ := List.mem_filterMap.1 hr
  rw [← h call r he]
  exact (hc call hcall).artifact_eq

theorem owner_of_file : ∀ f ∈ calls.filterMap file?, f.1 = artifact := by
  apply owner_of_row hc
  intro call f he
  cases call with
  | insertFile a row =>
    obtain rfl : (a, row) = f := Option.some.inj he
    rfl
  | _ => simp [file?] at he

theorem owner_of_declaration : ∀ d ∈ calls.filterMap declaration?, d.artifact = artifact := by
  apply owner_of_row hc
  intro call d he
  cases call with
  | insertDeclaration row =>
    obtain rfl : row = d := Option.some.inj he
    rfl
  | _ => simp [declaration?] at he

theorem owner_of_reference : ∀ r ∈ calls.filterMap reference?, r.artifact = artifact := by
  apply owner_of_row hc
  intro call r he
  cases call with
  | insertReference row =>
    obtain rfl : row = r := Option.some.inj he
    rfl
  | _ => simp [reference?] at he

end Owners

end Feed.Call

namespace Store

open Feed (Call)

/-- The fault of the first call that stores a path or declares a binding that is there already. -/
def conflict? (paths : List String) (bindings : List Binding) : List Call → Option Fault
  | [] => none
  | .insertFile _ row :: rest =>
    if row.path ∈ paths then
      some (.queryFailed ("failed to insert source file: " ++
        "UNIQUE constraint failed: sourceFiles.artifactId, sourceFiles.path"))
    else conflict? (row.path :: paths) bindings rest
  | .insertDeclaration row :: rest =>
    if row.binding ∈ bindings then
      some (.duplicateDeclaration row.artifact row.binding.text row.file)
    else conflict? paths (row.binding :: bindings) rest
  | _ :: rest => conflict? paths bindings rest

/-- Nothing is in conflict where every path and every binding comes once. -/
theorem conflict?_eq_none_iff (paths : List String) (bindings : List Binding) (calls : List Call) :
    conflict? paths bindings calls = none ↔
      (((calls.filterMap Call.file?).map fun f => f.2.path).Nodup ∧
        ∀ f ∈ calls.filterMap Call.file?, f.2.path ∉ paths) ∧
      ((calls.filterMap Call.declaration?).map DeclarationRow.binding).Nodup ∧
        ∀ d ∈ calls.filterMap Call.declaration?, d.binding ∉ bindings := by
  induction calls generalizing paths bindings with
  | nil => simp [conflict?]
  | cons call rest ih =>
    cases call with
    | insertFile artifact row =>
      rw [conflict?]
      by_cases hmem : row.path ∈ paths
      · simp [hmem, Call.file?]
      · rw [if_neg hmem, ih]
        simp only [Call.file?, Call.declaration?, List.filterMap_cons, List.map_cons,
          List.nodup_cons, List.mem_map, List.mem_cons, forall_eq_or_imp, not_or]
        grind
    | insertDeclaration row =>
      rw [conflict?]
      by_cases hmem : row.binding ∈ bindings
      · simp [hmem, Call.declaration?]
      · rw [if_neg hmem, ih]
        simp only [Call.file?, Call.declaration?, List.filterMap_cons, List.map_cons,
          List.nodup_cons, List.mem_map, List.mem_cons, forall_eq_or_imp, not_or]
        grind
    | _ => exact ih paths bindings

variable (key : Binding → Int64)

namespace Tables

/-- The tables behind calls that are all carried out. -/
def extendAll (t : Tables) (calls : List Call) : Tables :=
  calls.foldl (fun t call => t.extend key call) t

/-- The paths and the bindings that are there of an artifact. -/
structure Holds (artifact : String) (paths : List String) (bindings : List Binding) (t : Tables) :
    Prop where
  paths : ∀ path, path ∈ paths ↔ ∃ f ∈ t.files, f.1 = artifact ∧ f.2.path = path
  bindings : ∀ b, b ∈ bindings ↔
    ∃ d ∈ t.declarations, d.row.artifact = artifact ∧ d.row.binding = b

theorem Holds.insertFile {artifact : String} {paths : List String} {bindings : List Binding}
    {t : Tables} (h : t.Holds artifact paths bindings) (row : SourceRow) :
    (t.extend key (.insertFile artifact row)).Holds artifact (row.path :: paths) bindings := by
  constructor
  · intro path
    rw [List.mem_cons, h.paths]
    simp only [extend, List.mem_append, List.mem_singleton]
    constructor
    · rintro (rfl | ⟨f, hf, hmatch⟩)
      · exact ⟨_, .inr rfl, rfl, rfl⟩
      · exact ⟨f, .inl hf, hmatch⟩
    · rintro ⟨f, hf | rfl, ha, hpath⟩
      · exact .inr ⟨f, hf, ha, hpath⟩
      · exact .inl hpath.symm
  · exact h.bindings

theorem Holds.insertDeclaration {paths : List String} {bindings : List Binding} {t : Tables}
    {row : DeclarationRow} (h : t.Holds row.artifact paths bindings) :
    (t.extend key (.insertDeclaration row)).Holds row.artifact paths (row.binding :: bindings) := by
  constructor
  · exact h.paths
  · intro b
    rw [List.mem_cons, h.bindings]
    simp only [extend, List.mem_append, List.mem_singleton]
    constructor
    · rintro (rfl | ⟨d, hd, hmatch⟩)
      · exact ⟨_, .inr rfl, rfl, rfl⟩
      · exact ⟨d, .inl hd, hmatch⟩
    · rintro ⟨d, hd | rfl, ha, hb⟩
      · exact .inr ⟨d, hd, ha, hb⟩
      · exact .inl hb.symm

theorem extendAll?_eq (artifact : String) (paths : List String) (bindings : List Binding)
    (calls : List Call) (t : Tables) (h : t.Holds artifact paths bindings)
    (hc : ∀ call ∈ calls, call.Adds artifact) :
    t.extendAll? key calls =
      (conflict? paths bindings calls).elim (.ok (t.extendAll key calls)) .error := by
  induction calls generalizing paths bindings t with
  | nil => rfl
  | cons call rest ih =>
    have hadds := hc call List.mem_cons_self
    have hrest : ∀ c ∈ rest, c.Adds artifact := fun c hmem => hc c (List.mem_cons_of_mem _ hmem)
    cases call with
    | clearArtifact a => exact hadds.elim
    | insertArtifact a version => exact hadds.elim
    | insertDependency a target => exact ih paths bindings _ ⟨h.paths, h.bindings⟩ hrest
    | insertAlias a name => exact ih paths bindings _ ⟨h.paths, h.bindings⟩ hrest
    | insertReference row => exact ih paths bindings _ ⟨h.paths, h.bindings⟩ hrest
    | insertFile a row =>
      obtain rfl : a = artifact := hadds
      have hrefusal : t.refusal? (.insertFile a row) =
          if row.path ∈ paths then
            some (.queryFailed ("failed to insert source file: " ++
              "UNIQUE constraint failed: sourceFiles.artifactId, sourceFiles.path"))
          else none := by
        refine if_congr ?_ rfl rfl
        rw [h.paths, List.any_eq_true]
        simp
      by_cases hmem : row.path ∈ paths
      · simp only [extendAll?, hrefusal, conflict?, if_pos hmem, Option.elim_some]
      · simp only [extendAll?, hrefusal, conflict?, if_neg hmem]
        exact ih (row.path :: paths) bindings _ (h.insertFile key row) hrest
    | insertDeclaration row =>
      obtain rfl : row.artifact = artifact := hadds
      have hrefusal : t.refusal? (.insertDeclaration row) =
          if row.binding ∈ bindings then
            some (.duplicateDeclaration row.artifact row.binding.text row.file)
          else none := by
        refine if_congr ?_ rfl rfl
        rw [h.bindings, List.any_eq_true]
        simp
      by_cases hmem : row.binding ∈ bindings
      · simp only [extendAll?, hrefusal, conflict?, if_pos hmem, Option.elim_some]
      · simp only [extendAll?, hrefusal, conflict?, if_neg hmem]
        exact ih paths (row.binding :: bindings) _ (h.insertDeclaration key) hrest

/-- The first two calls of an ingest leave nothing that a row could be in conflict with. -/
theorem holds_renew (artifact : String) (version : Int64) (t : Tables) :
    (t.renew key artifact version).Holds artifact [] [] := by
  constructor
  · intro path
    simp [renew, extend, clear]
  · intro b
    constructor
    · intro hb
      simp at hb
    · rintro ⟨d, hd, ha, -⟩
      have hne := (List.mem_filter.1 hd).2
      simp [ha] at hne

theorem extendAll_eq (artifact : String) (calls : List Call) (t : Tables)
    (hc : ∀ call ∈ calls, call.Adds artifact) :
    t.extendAll key calls = {
      artifacts := t.artifacts
      files := t.files ++ calls.filterMap Call.file?
      declarations := t.declarations ++
        (calls.filterMap Call.declaration?).map fun row => ⟨key row.binding, row⟩
      references := t.references ++
        (calls.filterMap Call.reference?).map fun row => ⟨key row.target, row⟩
      dependencies := (calls.filterMap Call.dependency?).foldl (fun ps p => insertPair p ps)
        t.dependencies
      aliases := (calls.filterMap Call.alias?).foldl (fun ps p => insertPair p ps) t.aliases } := by
  induction calls generalizing t with
  | nil => simp [extendAll]
  | cons call rest ih =>
    have hadds := hc call List.mem_cons_self
    have hrest := ih (t.extend key call) fun c hmem => hc c (List.mem_cons_of_mem _ hmem)
    change (t.extend key call).extendAll key rest = _
    rw [hrest]
    cases call with
    | clearArtifact a => exact hadds.elim
    | insertArtifact a version => exact hadds.elim
    | _ => simp [extend, insertDependency, insertAlias, insertReferences, Call.file?,
        Call.declaration?, Call.reference?, Call.dependency?, Call.alias?, List.filterMap_cons]

end Tables

theorem session_of_additions {α : Type} (s : Store) (artifact : String) (capacity : Nat)
    (version : Int64) (calls : List Call) (hc : ∀ call ∈ calls, call.Adds artifact)
    (result : Except Fault α) :
    provider.session artifact capacity
        ⟨.clearArtifact artifact :: .insertArtifact artifact version :: calls, result⟩ s =
      match conflict? [] [] calls, result with
      | some fault, _ => (.error fault, s)
      | none, .error fault => (.error fault, s)
      | none, .ok a => (.ok a, { s with
          tables := (s.tables.renew s.key artifact version).extendAll s.key calls }) := by
  rw [session_of_calls s artifact capacity version calls fun call hcall => (hc call hcall).artifact_eq,
    Tables.extendAll?_eq s.key artifact [] [] calls _ (Tables.holds_renew s.key artifact version _) hc]
  cases conflict? [] [] calls with
  | some fault => rfl
  | none => cases result <;> rfl

theorem countP_filter_append {α : Type} {p q : α → Bool} {xs ys : List α}
    (hq : ∀ a, q a = true → p a = false) (hy : ∀ y ∈ ys, p y = true) :
    ((xs.filter q) ++ ys).countP p = ys.length := by
  have hnone : (xs.filter q).countP p = 0 := by
    apply List.countP_eq_zero.2
    intro a ha
    simpa using hq a (List.mem_filter.1 ha).2
  rw [List.countP_append, hnone, List.countP_eq_length.2 hy, Nat.zero_add]

theorem find?_filter_append {α : Type} {p q : α → Bool} {xs : List α} {b : α}
    (hq : ∀ a, q a = true → p a = false) (hb : p b = true) :
    ((xs.filter q) ++ [b]).find? p = some b := by
  have hnone : (xs.filter q).find? p = none := by
    apply List.find?_eq_none.2
    intro a ha
    have hqa : q a = true := (List.mem_filter.1 ha).2
    simpa using hq a hqa
  rw [List.find?_append, hnone]
  simp [hb]

theorem status_renewed (s : Store) (artifact : String) (version : Int64) (calls : List Call)
    (hc : ∀ call ∈ calls, call.Adds artifact) :
    let z : Store := { s with
      tables := (s.tables.renew s.key artifact version).extendAll s.key calls }
    z.status artifact = .ok {
      artifact := artifact
      version := version
      files := (calls.filterMap Call.file?).length
      declarations := (calls.filterMap Call.declaration?).length
      references := (calls.filterMap Call.reference?).length
      dependencies := z.dependencies artifact
      aliases := z.aliases artifact } := by
  intro z
  have hz : z.tables = (s.tables.renew s.key artifact version).extendAll s.key calls := rfl
  rw [Tables.extendAll_eq s.key artifact calls _ hc] at hz
  have hversion : z.artifactVersion? artifact = some version := by
    rw [artifactVersion?, hz]
    refine congrArg (Option.map Prod.snd) (find?_filter_append ?_ ?_)
    · intro a ha
      simpa using ha
    · simp
  have hfiles : z.tables.files.countP (fun f => f.1 = artifact) =
      (calls.filterMap Call.file?).length := by
    rw [hz]
    apply countP_filter_append
    · intro f hf
      simpa using hf
    · intro f hf
      have howner : f.1 = artifact := Call.owner_of_file hc f hf
      simpa using howner
  have hdeclarations : z.tables.declarations.countP (fun d => d.row.artifact = artifact) =
      (calls.filterMap Call.declaration?).length := by
    rw [hz, ← List.length_map]
    apply countP_filter_append
    · intro d hd
      simpa using hd
    · intro d hd
      obtain ⟨row, hrow, rfl⟩ := List.mem_map.1 hd
      have howner : row.artifact = artifact := Call.owner_of_declaration hc row hrow
      simpa using howner
  have hreferences : z.tables.references.countP (fun r => r.row.artifact = artifact) =
      (calls.filterMap Call.reference?).length := by
    rw [hz, ← List.length_map]
    apply countP_filter_append
    · intro r hr
      simpa using hr
    · intro r hr
      obtain ⟨row, hrow, rfl⟩ := List.mem_map.1 hr
      have howner : row.artifact = artifact := Call.owner_of_reference hc row hrow
      simpa using howner
  unfold status
  rw [hversion, hfiles, hdeclarations, hreferences]

theorem count_insertPairs (p : String × String) (ps qs : List (String × String)) :
    (qs.foldl (fun ps q => insertPair q ps) ps).count p =
      if p ∈ ps then ps.count p else if p ∈ qs then 1 else 0 := by
  induction qs generalizing ps with
  | nil =>
    by_cases hp : p ∈ ps
    · simp [hp]
    · simp [hp, List.count_eq_zero_of_not_mem hp]
  | cons q qs ih =>
    rw [List.foldl_cons, ih, insertPair]
    by_cases hq : q ∈ ps
    · by_cases hp : p ∈ ps
      · simp [hq, hp]
      · have hne : p ≠ q := by
          rintro rfl
          exact hp hq
        simp [hq, hp, hne]
    · by_cases hp : p ∈ ps
      · have hne : q ≠ p := by
          rintro rfl
          exact hq hp
        simp [hq, hp, hne]
      · by_cases hpq : p = q
        · subst hpq
          simp [hp, List.count_eq_zero_of_not_mem hp]
        · simp [hq, hp, hpq]

theorem insertPairs_perm {ps ps' qs qs' : List (String × String)} (h : ps.Perm ps')
    (hq : ∀ q, q ∈ qs ↔ q ∈ qs') :
    (qs.foldl (fun ps q => insertPair q ps) ps).Perm (qs'.foldl (fun ps q => insertPair q ps) ps') := by
  apply List.perm_iff_count.2
  intro p
  rw [count_insertPairs, count_insertPairs, h.count_eq]
  simp only [h.mem_iff, hq]

/-- Calls that add rows which no query tells apart. -/
structure AlikeCalls (calls calls' : List Call) : Prop where
  files : AlikeBy (fun f => (f.1, f.2.path)) (calls.filterMap Call.file?)
    (calls'.filterMap Call.file?)
  declarations : AlikeBy (fun d => (d.artifact, d.binding)) (calls.filterMap Call.declaration?)
    (calls'.filterMap Call.declaration?)
  references : AlikeBy (fun r => (r.artifact, r.file)) (calls.filterMap Call.reference?)
    (calls'.filterMap Call.reference?)
  dependencies : ∀ p, p ∈ calls.filterMap Call.dependency? ↔ p ∈ calls'.filterMap Call.dependency?
  aliases : ∀ p, p ∈ calls.filterMap Call.alias? ↔ p ∈ calls'.filterMap Call.alias?

theorem AlikeCalls.refl (calls : List Call) : AlikeCalls calls calls :=
  ⟨.refl _, .refl _, .refl _, fun _ => .rfl, fun _ => .rfl⟩

theorem Tables.extendAll_alike {t u : Tables} {calls calls' : List Call} {artifact : String}
    (h : t.Alike u) (hc : AlikeCalls calls calls') (hcalls : ∀ call ∈ calls, call.Adds artifact)
    (hcalls' : ∀ call ∈ calls', call.Adds artifact) :
    (t.extendAll key calls).Alike (u.extendAll key calls') := by
  rw [t.extendAll_eq key artifact calls hcalls, u.extendAll_eq key artifact calls' hcalls']
  exact ⟨h.artifacts, h.files.append hc.files, h.declarations.append (hc.declarations.map _),
    h.references.append (hc.references.map _),
    .of_perm_id (insertPairs_perm h.dependencies.perm hc.dependencies),
    .of_perm_id (insertPairs_perm h.aliases.perm hc.aliases)⟩

end Store

end CrossRef
