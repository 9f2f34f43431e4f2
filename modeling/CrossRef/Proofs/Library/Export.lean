import CrossRef.Proofs.Fact.Normal
import CrossRef.Proofs.Ingest.Concurrency
import CrossRef.Proofs.Library.History

namespace CrossRef

open Feed (Production)

/-- The dump that the answers of a store about an artifact make up. -/
def Store.dumpOf (s : Store) (artifact : String) : Except Fault Dump := do
  let files ← (s.filePaths artifact).mapM fun path => (s.file artifact path).map fun f => (path, f)
  return ⟨artifact, s.dependencies artifact, s.aliases artifact, .ofList files⟩

/-- Contents as an ingest leaves them. -/
structure Content.Settled (c : Content) : Prop where
  version : c.version = compileVersion
  nonempty : c.files.toList ≠ []
  normal : ∀ f ∈ c.files.toList, f.2.normalize = (f.2, none)
  declared : (c.files.toList.flatMap fun f => f.2.declarations.map Prod.snd).Nodup

theorem SourceFile.normalize_settled {file : SourceFile} (h : file.normalize.2 = none) :
    file.normalize.1.normalize = (file.normalize.1, none) := by
  rw [normalize_normalize]
  exact Prod.ext rfl h

theorem Ingest.Renewed.settled {x y : Indexer} {artifact : String} {steps : List Step}
    {summary : Summary} (h : Renewed x artifact steps summary y) :
    (Content.ofSteps steps).Settled := by
  have hperm := files_ofSteps h.free
  refine ⟨rfl, ?_, ?_, ?_⟩
  · intro hnil
    apply h.files
    rw [hnil] at hperm
    rw [h.counted, plus, file?_calls, List.nil_perm.1 hperm]
    rfl
  · intro f hf
    obtain ⟨step, hstep, hbaked⟩ := List.mem_filterMap.1 (hperm.mem_iff.1 hf)
    cases step with
    | file path source =>
      obtain rfl := Option.some.inj hbaked
      exact SourceFile.normalize_settled (h.whole _ hstep)
    | _ => simp [Step.baked?] at hbaked
  · have hbindings := (distinct_of_free h.free).2
    rw [List.map_flatMap] at hbindings
    have hperm' := hperm.flatMap_right fun f => f.2.declarations.map Prod.snd
    refine hperm'.nodup_iff.2 ?_
    simpa [SourceFile.declarationsAt, Function.comp_def] using hbindings

theorem Ingest.Delivers.settled {artifact : String} {steps : List Step}
    {production : Production Summary} (hd : Delivers artifact steps production) (x : Indexer) :
    ∀ e ∈ Ingested.gain? artifact steps ((deliver x artifact production).1.map .indexed),
      e.2.Settled := by
  rcases deliver_cases x hd with ⟨fault, hrun⟩ | ⟨summary, y, hrun, hy⟩
  · simp [hrun, Except.map, Ingested.gain?]
  · simpa [hrun, Except.map, Ingested.gain?] using hy.settled

theorem Indexer.ingestIfStale_settled (x : Indexer) (artifact : String) (steps : List Step) :
    ∀ e ∈ Ingested.gain? artifact steps (x.ingestIfStale artifact steps).1, e.2.Settled := by
  rw [ingestIfStale]
  split
  case isTrue => exact (Ingest.production_delivers artifact steps).settled x
  case isFalse => simp [Ingested.gain?]

namespace Operation

theorem settled_of_run {x y : Indexer} {operation : Operation} {gain : Option (String × Content)}
    (h : operation.run x = some (gain, y)) : ∀ e ∈ gain, e.2.Settled := by
  cases operation with
  | ingest artifact steps =>
    obtain ⟨rfl, -⟩ := Prod.mk.inj (Option.some.inj h)
    exact (Ingest.production_delivers artifact steps).settled x
  | ingestIfStale artifact steps =>
    obtain ⟨rfl, -⟩ := Prod.mk.inj (Option.some.inj h)
    exact x.ingestIfStale_settled artifact steps
  | ingestDump dump force =>
    obtain ⟨rfl, -⟩ := Prod.mk.inj (Option.some.inj h)
    cases force with
    | true => exact (Ingest.production_delivers dump.id (Ingest.stepsOf dump)).settled x
    | false => exact x.ingestIfStale_settled dump.id (Ingest.stepsOf dump)
  | deliver artifact steps production delivers =>
    obtain ⟨rfl, -⟩ := Prod.mk.inj (Option.some.inj h)
    exact delivers.settled x
  | reopen place logged queueCapacity batchSize =>
    obtain ⟨tables, -, he⟩ := Option.map_eq_some_iff.1 h
    obtain ⟨rfl, -⟩ := Prod.mk.inj he
    simp

theorem settled_of_runAll {x y : Indexer} {history : List Operation}
    {log : List (String × Content)} (h : runAll history x = some (log, y)) :
    ∀ e ∈ log, e.2.Settled := by
  induction history generalizing x log with
  | nil =>
    obtain ⟨rfl, -⟩ := Prod.mk.inj (Option.some.inj h)
    simp
  | cons operation rest ih =>
    obtain ⟨⟨gain, z⟩, hrun, h⟩ := Option.bind_eq_some_iff.1 h
    obtain ⟨⟨others, w⟩, hrest, h⟩ := Option.map_eq_some_iff.1 h
    obtain ⟨rfl, rfl⟩ := Prod.mk.inj h
    intro e he
    rcases List.mem_append.1 he with he | he
    · exact settled_of_run hrun e (Option.mem_toList.1 he)
    · exact ih hrest e he

/-- Every history of an empty index goes through, and leaves it with settled contents. -/
theorem runAll_empty (key : Binding → Int64) (queueCapacity batchSize : Nat)
    (history : List Operation) :
    ∃ log x, runAll history ⟨⟨key, batchSize, {}⟩, queueCapacity⟩ = some (log, x) ∧
      x.store.Holds (.ofList log) ∧ ∀ e ∈ log, e.2.Settled := by
  have hempty : Store.Holds ⟨key, batchSize, {}⟩ .empty := .refl _
  obtain ⟨log, x, hrun, hholds⟩ := runAll_holds (x := ⟨_, queueCapacity⟩) hempty history
  exact ⟨log, x, hrun, hholds, settled_of_runAll hrun⟩

end Operation

namespace Library

theorem content?_of_mem {l : Library} {artifact : String} (h : artifact ∈ l.artifacts) :
    ∃ c, l.content? artifact = some c := by
  obtain ⟨e, he, rfl⟩ := List.mem_map.1 h
  have hget : l.get? e.1 = some e := Catalog.get?_eq_some_iff.2 ⟨he, rfl⟩
  exact ⟨e.2, by rw [content?, hget, Option.map_some]⟩

theorem settled_of_content? {log : List (String × Content)} (h : ∀ e ∈ log, e.2.Settled)
    {artifact : String} {c : Content} (hc : content? (.ofList log) artifact = some c) :
    c.Settled := by
  rw [content?, Catalog.get?_ofList] at hc
  obtain ⟨e, he, rfl⟩ := Option.map_eq_some_iff.1 hc
  exact h e (List.mem_reverse.1 (List.mem_of_find?_eq_some he))

end Library

/-- The dump that stands for the contents of an artifact. -/
def Content.dump (artifact : String) (c : Content) : Dump :=
  ⟨artifact, c.dependencies.toList, c.aliases.toList, c.files⟩

/-- Contents that are settled are what an ingest of their dump leaves. -/
theorem Content.ofSteps_dump {c : Content} (h : c.Settled) (artifact : String) :
    ofSteps (Ingest.stepsOf (c.dump artifact)) = c := by
  have hdependencies : (Ingest.stepsOf (c.dump artifact)).filterMap Step.dependency? =
      c.dependencies.toList := by
    simp [Ingest.stepsOf, dump, List.filterMap_map, Function.comp_def, Step.dependency?]
  have haliases : (Ingest.stepsOf (c.dump artifact)).filterMap Step.name? = c.aliases.toList := by
    simp [Ingest.stepsOf, dump, List.filterMap_map, Function.comp_def, Step.name?]
  have hfiles : (Ingest.stepsOf (c.dump artifact)).filterMap Step.baked? = c.files.toList := by
    have hbaked : c.files.toList.map (fun f => (f.1, f.2.normalize.1)) = c.files.toList :=
      (List.map_congr_left fun f hf => by
        rw [h.normal f hf]
        rfl).trans (List.map_id _)
    simp [Ingest.stepsOf, dump, List.filterMap_map, Function.comp_def, Step.baked?, hbaked]
  rw [ofSteps, hdependencies, haliases, hfiles, Catalog.ofList_toList, Catalog.ofList_toList,
    Catalog.ofList_toList, ← h.version]

theorem Store.Answers.dumpOf_eq {s : Store} {l : Library} (h : s.Answers l) {artifact : String}
    {c : Content} (hc : l.content? artifact = some c) :
    s.dumpOf artifact = .ok (c.dump artifact) := by
  have hpaths : s.filePaths artifact = c.files.toList.map Prod.fst := by
    rw [h.filePaths, Library.filePaths, hc, Option.elim_some]
  have hfile : ∀ f ∈ c.files.toList, s.file artifact f.1 = .ok f.2 := by
    intro f hf
    have hget : c.files.get? f.1 = some f := Catalog.get?_eq_some_iff.2 ⟨hf, rfl⟩
    rw [h.file, Library.file, hc, Option.bind_some, hget, Option.elim_some]
  have hfiles : (c.files.toList.map Prod.fst).mapM
      (fun path => (s.file artifact path).map fun f => (path, f)) = .ok c.files.toList :=
    Json.mapM_map_of_mem fun f hf => by
      rw [hfile f hf]
      rfl
  have hdependencies : s.dependencies artifact = c.dependencies.toList := by
    rw [h.dependencies, Library.dependencies, hc, Option.elim_some]
  have haliases : s.aliases artifact = c.aliases.toList := by
    rw [h.aliases, Library.aliases, hc, Option.elim_some]
  have hdump : s.dumpOf artifact =
      .ok ⟨artifact, s.dependencies artifact, s.aliases artifact, .ofList c.files.toList⟩ := by
    rw [Store.dumpOf, hpaths, hfiles]
    rfl
  rw [hdump, hdependencies, haliases, Catalog.ofList_toList, Content.dump]

theorem Content.Settled.succeeds {c : Content} (h : c.Settled) {artifact : String}
    {production : Production Summary} (hruns : Ingest.Runs (c.dump artifact) production)
    (x : Indexer) :
    ∃ summary, (Ingest.deliver x (c.dump artifact).id production).1 = .ok summary := by
  have hnormal : ∀ f ∈ c.files.toList, f.2.normalize.2 = none := by
    intro f hf
    rw [h.normal f hf]
  have hdeclared : Ingest.declared (c.dump artifact) =
      c.files.toList.flatMap fun f => f.2.declarations.map Prod.snd :=
    List.flatMap_congr fun f hf => by rw [Ingest.baked, h.normal f hf]
  exact (hruns.succeeds_iff x).2 ⟨h.nonempty, hnormal, hdeclared ▸ h.declared⟩

theorem Store.Holds.sameAnswers {s t : Store} {l : Library} (h : s.Holds l) (h' : t.Holds l)
    (hkey : s.key = t.key) : Store.SameAnswers s t := by
  have hlike : t.tables.Alike (l.tables t.key) := h'
  rw [← hkey] at hlike
  exact Store.sameAnswers_of_alike (h.trans hlike.symm) hkey

/-- Whatever the weave of its files, the dump of an artifact brings nothing new. -/
theorem Store.Holds.reingest {x : Indexer} {l : Library} (h : x.store.Holds l) {artifact : String}
    {c : Content} (hc : l.content? artifact = some c) (hsettled : c.Settled)
    {production : Production Summary} (hruns : Ingest.Runs (c.dump artifact) production) :
    ∃ y, Ingest.deliver x artifact production =
        (.ok ⟨artifact, (c.status artifact).files, (c.status artifact).declarations,
          (c.status artifact).references⟩, y) ∧ Store.SameAnswers x.store y.store := by
  obtain ⟨summary, hok⟩ := hsettled.succeeds hruns x
  rcases Ingest.deliver_cases x hruns.delivers with ⟨fault, hrun⟩ | ⟨summary', y, hrun, hy⟩
  · simp [hrun] at hok
  have hmem : (artifact, c) ∈ l.toList := by
    obtain ⟨⟨a, c'⟩, hget, rfl⟩ := Option.map_eq_some_iff.1 hc
    obtain ⟨hmem, rfl⟩ := Catalog.mem_of_get? hget
    exact hmem
  have hholds : y.store.Holds l := by
    have hput : y.store.Holds
        (l.put (artifact, Content.ofSteps (Ingest.stepsOf (c.dump artifact)))) := hy.holds h
    rwa [Content.ofSteps_dump hsettled, Catalog.put_of_mem hmem] at hput
  have hstatus : y.store.status artifact = .ok (c.status artifact) := by
    rw [hholds.answers.status, Library.status, hc, Option.elim_some]
  obtain ⟨status, hcounted, hfiles, hdeclarations, hreferences⟩ := hy.status
  obtain rfl : c.status artifact = status := Except.ok.inj (hstatus.symm.trans hcounted)
  have hartifact : summary'.artifact = artifact := by
    rw [hy.counted]
    rfl
  have hsummary : (⟨artifact, (c.status artifact).files, (c.status artifact).declarations,
      (c.status artifact).references⟩ : Summary) = summary' := by
    rw [← hfiles, ← hdeclarations, ← hreferences, ← hartifact]
  rw [hsummary]
  exact ⟨y, hrun, h.sameAnswers hholds hy.key.symm⟩

/-- After any history that begins with an empty index, an artifact leaves as a dump that is ingested
again with the counts of its status, file after file or with a producer for each, and behind that
the index answers every query as before. -/
theorem reingest_dump (key : Binding → Int64) (queueCapacity batchSize : Nat)
    (history : List Operation) :
    ∃ log x, Operation.runAll history ⟨⟨key, batchSize, {}⟩, queueCapacity⟩ = some (log, x) ∧
      ∀ artifact ∈ x.store.artifacts, ∃ d status,
        x.store.dumpOf artifact = .ok d ∧ x.store.status artifact = .ok status ∧
        let summary : Summary :=
          ⟨artifact, status.files, status.declarations, status.references⟩
        (∃ y, x.ingestDump d true = (.ok (.indexed summary), y) ∧
          Store.SameAnswers x.store y.store) ∧
        ∀ production, Ingest.Runs d production →
          ∃ y, Ingest.deliver x d.id production = (.ok summary, y) ∧
            Store.SameAnswers x.store y.store := by
  obtain ⟨log, x, hrun, hholds, hsettled⟩ :=
    Operation.runAll_empty key queueCapacity batchSize history
  refine ⟨log, x, hrun, ?_⟩
  intro artifact hmem
  rw [hholds.answers.artifacts] at hmem
  obtain ⟨c, hc⟩ := Library.content?_of_mem hmem
  have hstatus : x.store.status artifact = .ok (c.status artifact) := by
    rw [hholds.answers.status, Library.status, hc, Option.elim_some]
  have hreingest : ∀ production, Ingest.Runs (c.dump artifact) production → _ :=
    fun production => hholds.reingest hc (Library.settled_of_content? hsettled hc)
  refine ⟨c.dump artifact, c.status artifact, hholds.answers.dumpOf_eq hc, hstatus, ?_, hreingest⟩
  obtain ⟨y, hy, hsame⟩ := hreingest _ (Ingest.production_runs (c.dump artifact))
  refine ⟨y, ?_, hsame⟩
  have hingest : x.ingest (c.dump artifact).id (Ingest.stepsOf (c.dump artifact)) =
      (.ok _, y) := hy
  rw [Indexer.ingestDump, if_pos rfl, hingest]
  rfl

end CrossRef
