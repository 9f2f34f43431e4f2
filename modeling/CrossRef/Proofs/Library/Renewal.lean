import CrossRef.Proofs.Ingest.Delivery
import CrossRef.Proofs.Library.Tables

namespace CrossRef

open Feed (Call)
open Store (Keyed Tables DeclarationRow ReferenceRow)

namespace Step

def dependency? : Step → Option String
  | .dependency target => some target
  | _ => none

def name? : Step → Option String
  | .name alternative => some alternative
  | _ => none

/-- A file with its facts in normal order. -/
def baked? : Step → Option (String × SourceFile)
  | .file path source => some (path, source.normalize.1)
  | _ => none

end Step

/-- What the steps of an ingest leave of an artifact. -/
def Content.ofSteps (steps : List Step) : Content where
  version := compileVersion
  dependencies := .ofList (steps.filterMap Step.dependency?)
  aliases := .ofList (steps.filterMap Step.name?)
  files := .ofList (steps.filterMap Step.baked?)

theorem filterMap_calls {ρ σ : Type} {artifact : String} {f : Call → Option ρ}
    {part : Step → Option σ} {rows : σ → List ρ}
    (h : ∀ step : Step, (step.calls artifact).filterMap f = (part step).elim [] rows)
    (steps : List Step) :
    (steps.flatMap (Step.calls artifact)).filterMap f = (steps.filterMap part).flatMap rows := by
  induction steps with
  | nil => rfl
  | cons step steps ih =>
    rw [List.flatMap_cons, List.filterMap_append, ih, h]
    cases hpart : part step with
    | none => rw [List.filterMap_cons_none hpart, Option.elim_none, List.nil_append]
    | some a => rw [List.filterMap_cons_some hpart, Option.elim_some, List.flatMap_cons]

section Rows

variable (artifact : String) (steps : List Step)

theorem file?_calls : (steps.flatMap (Step.calls artifact)).filterMap Call.file? =
    (steps.filterMap Step.baked?).map fun f => (artifact, Ingest.sourceRow f.1 f.2) := by
  rw [List.map_eq_flatMap]
  apply filterMap_calls
  intro step
  cases step with
  | file path source => exact Ingest.file?_rows artifact path _
  | _ => rfl

theorem declaration?_calls : (steps.flatMap (Step.calls artifact)).filterMap Call.declaration? =
    (steps.filterMap Step.baked?).flatMap fun f => f.2.declarationsAt artifact f.1 := by
  apply filterMap_calls
  intro step
  cases step with
  | file path source =>
    rw [Step.calls, Ingest.declaration?_rows, Ingest.declarationRows_eq]
    rfl
  | _ => rfl

theorem reference?_calls : (steps.flatMap (Step.calls artifact)).filterMap Call.reference? =
    (steps.filterMap Step.baked?).flatMap fun f => f.2.referencesAt artifact f.1 := by
  apply filterMap_calls
  intro step
  cases step with
  | file path source =>
    rw [Step.calls, Ingest.reference?_rows, Ingest.referenceRows_eq]
    rfl
  | _ => rfl

theorem dependency?_calls : (steps.flatMap (Step.calls artifact)).filterMap Call.dependency? =
    (steps.filterMap Step.dependency?).map fun target => (artifact, target) := by
  rw [List.map_eq_flatMap]
  apply filterMap_calls
  intro step
  cases step with
  | file path source => exact Ingest.dependency?_rows artifact path _
  | _ => rfl

theorem alias?_calls : (steps.flatMap (Step.calls artifact)).filterMap Call.alias? =
    (steps.filterMap Step.name?).map fun name => (artifact, name) := by
  rw [List.map_eq_flatMap]
  apply filterMap_calls
  intro step
  cases step with
  | file path source => exact Ingest.alias?_rows artifact path _
  | _ => rfl

end Rows

theorem AlikeBy.flatMap {ε ρ ι κ : Type} [DecidableEq ι] [DecidableEq κ] {entry : ε → ι}
    {cls : ρ → κ} {rows : ε → List ρ} {xs ys : List ε} (owner : κ → ι) (h : AlikeBy entry xs ys)
    (howner : ∀ e, ∀ r ∈ rows e, owner (cls r) = entry e) :
    AlikeBy cls (xs.flatMap rows) (ys.flatMap rows) := by
  intro k
  have hwithin : ∀ zs : List ε, ((zs.flatMap rows).filter fun r => cls r = k) =
      ((zs.filter fun e => entry e = owner k).flatMap rows).filter fun r => cls r = k := by
    intro zs
    rw [← filter_flatMap_of (p := fun r => owner (cls r) = owner k) zs
      fun e r hr => by rw [howner e r hr], List.filter_filter]
    apply List.filter_congr
    intro r _
    by_cases hr : cls r = k <;> simp [hr]
  rw [hwithin xs, hwithin ys, h (owner k)]

theorem alike_put (l : Library) (e : String × Content) :
    AlikeBy Prod.fst ((l.toList.filter fun e' => e'.1 ≠ e.1) ++ [e]) (l.put e).toList := by
  refine (AlikeBy.of_perm ?_ (l.put e).keys_nodup).symm
  exact (l.put_perm e).trans (List.perm_append_singleton e _).symm

/-- An entry that is put into a library takes its rows along and leaves all others alone. -/
theorem alike_flatMap_put {ρ κ : Type} [DecidableEq κ] (cls : ρ → κ) (owner : κ → String)
    (rows : String × Content → List ρ) (howner : ∀ e, ∀ r ∈ rows e, owner (cls r) = e.1)
    (l : Library) (e : String × Content) {new : List ρ} (hnew : AlikeBy cls new (rows e)) :
    AlikeBy cls (((l.toList.flatMap rows).filter fun r => owner (cls r) ≠ e.1) ++ new)
      ((l.put e).toList.flatMap rows) := by
  have hkeep : ((l.toList.flatMap rows).filter fun r => owner (cls r) ≠ e.1) =
      (l.toList.filter fun e' => e'.1 ≠ e.1).flatMap rows :=
    filter_flatMap_of l.toList fun e' r hr => by rw [howner e' r hr]
  have hput := (alike_put l e).flatMap owner howner
  rw [List.flatMap_append, List.flatMap_singleton] at hput
  rw [hkeep]
  exact ((AlikeBy.refl _).append hnew).trans hput

theorem insertPairs_of_fresh {ps qs rs : List (String × String)} (hfresh : ∀ p ∈ rs, p ∉ ps)
    (hnd : rs.Nodup) (hmem : ∀ p, p ∈ qs ↔ p ∈ rs) :
    (qs.foldl (fun ps q => Store.insertPair q ps) ps).Perm (ps ++ rs) := by
  apply List.perm_iff_count.2
  intro p
  rw [Store.count_insertPairs, List.count_append, hnd.count]
  by_cases hp : p ∈ ps
  · have hnot : p ∉ rs := fun hr => hfresh p hr hp
    simp [hp, hnot]
  · simp [hp, hmem p, List.count_eq_zero_of_not_mem hp]

theorem pairs_put (l : Library) (e : String × Content) (part : Content → TextSet)
    {texts : List String} (htexts : part e.2 = .ofList texts) :
    AlikeBy id ((texts.map fun text => (e.1, text)).foldl (fun ps q => Store.insertPair q ps)
        ((l.toList.flatMap fun e => (part e.2).toList.map fun text => (e.1, text)).filter
          fun p => p.1 ≠ e.1))
      ((l.put e).toList.flatMap fun e => (part e.2).toList.map fun text => (e.1, text)) := by
  have howner : ∀ e : String × Content,
      ∀ p ∈ (part e.2).toList.map fun text => (e.1, text), p.1 = e.1 := by
    intro e p hp
    obtain ⟨text, -, rfl⟩ := List.mem_map.1 hp
    rfl
  have hput := alike_flatMap_put id Prod.fst
    (fun e => (part e.2).toList.map fun text => (e.1, text)) howner l e (.refl _)
  refine AlikeBy.trans (.of_perm_id (insertPairs_of_fresh ?_ ?_ ?_)) hput
  · intro p hp hold
    obtain ⟨text, -, rfl⟩ := List.mem_map.1 hp
    simp at hold
  · have hnd : (part e.2).toList.Nodup := by simpa using (part e.2).keys_nodup
    exact hnd.map fun a b hab => (Prod.mk.inj hab).2
  · intro p
    simp only [htexts, List.mem_map, Catalog.mem_ofList]

theorem Store.Tables.Alike.renew {t u : Tables} (h : t.Alike u) (key : Binding → Int64)
    (artifact : String) (version : Int64) :
    (t.renew key artifact version).Alike (u.renew key artifact version) :=
  ⟨(h.artifacts.filter _).append (.refl _), h.files.filter _, h.declarations.filter _,
    h.references.filter _, h.dependencies.filter _, h.aliases.filter _⟩

namespace Ingest

variable {artifact : String} {steps : List Step}
variable (hfree : Store.conflict? [] [] (steps.flatMap (Step.calls artifact)) = none)
include hfree

theorem distinct_of_free :
    ((steps.filterMap Step.baked?).map Prod.fst).Nodup ∧
      (((steps.filterMap Step.baked?).flatMap fun f => f.2.declarationsAt artifact f.1).map
        DeclarationRow.binding).Nodup := by
  rw [Store.conflict?_eq_none_iff, file?_calls, declaration?_calls] at hfree
  obtain ⟨⟨hpaths, -⟩, hbindings, -⟩ := hfree
  constructor
  · simpa [Function.comp_def, sourceRow] using hpaths
  · exact hbindings

theorem files_ofSteps :
    (Content.ofSteps steps).files.toList.Perm (steps.filterMap Step.baked?) :=
  Catalog.ofList_perm (distinct_of_free hfree).1

theorem alike_files :
    AlikeBy (fun f : String × Store.SourceRow => (f.1, f.2.path))
      ((steps.flatMap (Step.calls artifact)).filterMap Call.file?)
      ((Content.ofSteps steps).files.toList.map fun f => (artifact, sourceRow f.1 f.2)) := by
  rw [file?_calls]
  refine .of_perm ((files_ofSteps hfree).symm.map _) ?_
  have hpaths := (distinct_of_free hfree).1
  rw [List.map_map]
  refine .of_map Prod.snd ?_
  simpa [Function.comp_def, sourceRow] using hpaths

theorem alike_declarations :
    AlikeBy (fun d : DeclarationRow => (d.artifact, d.binding))
      ((steps.flatMap (Step.calls artifact)).filterMap Call.declaration?)
      ((Content.ofSteps steps).declarations artifact) := by
  rw [declaration?_calls]
  refine .of_perm ((files_ofSteps hfree).symm.flatMap_right _) (.of_map Prod.snd ?_)
  rw [List.map_map]
  exact (distinct_of_free hfree).2

theorem alike_references :
    AlikeBy (fun r : ReferenceRow => (r.artifact, r.file))
      ((steps.flatMap (Step.calls artifact)).filterMap Call.reference?)
      ((Content.ofSteps steps).references artifact) := by
  rw [reference?_calls]
  have hfiles : AlikeBy Prod.fst (steps.filterMap Step.baked?)
      (Content.ofSteps steps).files.toList :=
    .of_perm (files_ofSteps hfree).symm (distinct_of_free hfree).1
  apply hfiles.flatMap Prod.snd
  intro f r hr
  obtain ⟨m, -, rfl⟩ := List.mem_map.1 hr
  rfl

end Ingest

/-- The tables of a library, cleared of an artifact and filled by its steps, are those of the library
that has the contents of the steps. -/
theorem Library.renew_alike (key : Binding → Int64) (l : Library) {artifact : String}
    {steps : List Step}
    (hfree : Store.conflict? [] [] (steps.flatMap (Step.calls artifact)) = none) :
    (((l.tables key).renew key artifact compileVersion).extendAll key
        (steps.flatMap (Step.calls artifact))).Alike
      (Library.tables key (l.put (artifact, Content.ofSteps steps))) := by
  let e : String × Content := (artifact, Content.ofSteps steps)
  have hartifacts := alike_flatMap_put Prod.fst id (fun e => [(e.1, e.2.version)]) (by simp) l e
    (.refl _)
  have hfiles := alike_flatMap_put (fun f => (f.1, f.2.path)) Prod.fst
    (fun e => e.2.files.toList.map fun f => (e.1, Ingest.sourceRow f.1 f.2)) artifact_of_file l e
    (Ingest.alike_files hfree)
  have hdeclarations := alike_flatMap_put (fun d => (d.artifact, d.binding)) Prod.fst
    (fun e => e.2.declarations e.1) artifact_of_declaration l e (Ingest.alike_declarations hfree)
  have hreferences := alike_flatMap_put (fun r => (r.artifact, r.file)) Prod.fst
    (fun e => e.2.references e.1) artifact_of_reference l e (Ingest.alike_references hfree)
  have hkeyed : ∀ {ρ : Type} (f : ρ → Keyed ρ) (p : Keyed ρ → Bool) (xs ys : List ρ),
      (xs.map f).filter p ++ ys.map f = (xs.filter (p ∘ f) ++ ys).map f := by
    intro ρ f p xs ys
    rw [List.filter_map, List.map_append]
  rw [Tables.extendAll_eq key artifact _ _ (Step.adds_flatMap_calls artifact steps)]
  refine ⟨?_, hfiles, ?_, ?_, ?_, ?_⟩
  · simp only [← List.map_eq_flatMap] at hartifacts
    exact hartifacts
  · change AlikeBy _ ((l.declarationRows.map _).filter _ ++ _) _
    rw [hkeyed]
    exact hdeclarations.map _
  · change AlikeBy _ ((l.referenceRows.map _).filter _ ++ _) _
    rw [hkeyed]
    exact hreferences.map _
  · rw [dependency?_calls]
    exact pairs_put l e Content.dependencies rfl
  · rw [alias?_calls]
    exact pairs_put l e Content.aliases rfl

/-- A store that holds what a library says. -/
def Store.Holds (s : Store) (l : Library) : Prop := s.tables.Alike (l.tables s.key)

theorem Store.Holds.answers {s : Store} {l : Library} (h : s.Holds l) : s.Answers l := by
  let t : Store := ⟨s.key, s.batchSize, l.tables s.key⟩
  have hsame := Store.sameAnswers_of_alike (s := s) (t := t) h rfl
  have ht : t.Answers l := answers_of_tables rfl
  exact ⟨hsame.artifacts.trans ht.artifacts,
    fun a => (hsame.artifactVersion? a).trans (ht.artifactVersion? a),
    fun a => (hsame.status a).trans (ht.status a),
    fun a => (hsame.declarations a).trans (ht.declarations a),
    fun b => (hsame.referencesTo b).trans (ht.referencesTo b),
    fun b => (hsame.resolve? b).trans (ht.resolve? b),
    fun a => (hsame.filePaths a).trans (ht.filePaths a),
    fun a p => (hsame.file a p).trans (ht.file a p),
    fun a => (hsame.dependencies a).trans (ht.dependencies a),
    fun a => (hsame.aliases a).trans (ht.aliases a)⟩

theorem Store.Holds.keyed {s : Store} {l : Library} (h : s.Holds l) : s.tables.KeyedBy s.key := by
  have hkeyed := l.keyedBy_tables s.key
  constructor
  · intro d hd
    exact hkeyed.declarations d ((h.declarations.mem_iff d).1 hd)
  · intro r hr
    exact hkeyed.references r ((h.references.mem_iff r).1 hr)

theorem Ingest.Renewed.holds {x y : Indexer} {artifact : String} {steps : List Step}
    {summary : Summary} (hr : Ingest.Renewed x artifact steps summary y) {l : Library}
    (h : x.store.Holds l) : y.store.Holds (l.put (artifact, Content.ofSteps steps)) := by
  have hadds := Step.adds_flatMap_calls artifact steps
  have hrenewed := Store.Tables.extendAll_alike x.store.key
    (h.renew x.store.key artifact compileVersion) (.refl _) hadds hadds
  rw [Store.Holds, hr.key]
  exact hr.tables.trans (hrenewed.trans (l.renew_alike x.store.key hr.free))

end CrossRef
