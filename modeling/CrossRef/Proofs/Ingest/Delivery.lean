import CrossRef.Proofs.Ingest.Outcome
import CrossRef.Proofs.Weaving
import Mathlib.Data.List.Nodup

namespace CrossRef.Ingest

open Feed (Call Production)

/-- The calls that open every ingest of an artifact. -/
def opening (artifact : String) : List Call :=
  [.clearArtifact artifact, .insertArtifact artifact compileVersion]

/-- What producers make of the steps of an artifact: the calls of a step stay in order and those of
different steps may be woven. Producers that fail may have sent whatever calls. -/
inductive Delivers (artifact : String) (steps : List Step) : Production Summary → Prop
  | whole {out : List Call} : (∀ step ∈ steps, step.fault? artifact true = none) →
      Woven (steps.map (Step.calls artifact)) out →
      Delivers artifact steps ⟨opening artifact ++ out, close (plus { artifact := artifact } out)⟩
  | broken (calls : List Call) (fault : Fault) : Delivers artifact steps ⟨calls, .error fault⟩

/-- Ingests what producers make of an artifact. -/
def deliver (x : Indexer) (artifact : String) (production : Production Summary) :
    Except Fault Summary × Indexer :=
  let (result, store) := Store.provider.session artifact x.queueCapacity production x.store
  (result, { x with store := store })

theorem ingest_eq_deliver (x : Indexer) (artifact : String) (steps : List Step) :
    x.ingest artifact steps = deliver x artifact (production artifact steps) := rfl

theorem upToFault_eq_none {artifact : String} {any : Bool} {steps : List Step}
    (h : (upToFault artifact any steps).2 = none) :
    (upToFault artifact any steps).1 = steps ∧
      ∀ step ∈ steps, step.fault? artifact true = none := by
  induction steps generalizing any with
  | nil => simp [upToFault]
  | cons step rest ih =>
    rw [upToFault] at h ⊢
    cases hf : step.fault? artifact any with
    | some fault => simp [hf] at h
    | none =>
      simp only [hf] at h ⊢
      obtain ⟨hsteps, hall⟩ := ih h
      constructor
      · rw [hsteps]
      · intro s hs
        rcases List.mem_cons.1 hs with rfl | hs
        · cases s with
          | finish => rfl
          | _ => exact hf
        · exact hall s hs

theorem production_delivers (artifact : String) (steps : List Step) :
    Delivers artifact steps (production artifact steps) := by
  rw [production_eq]
  simp only
  cases hf : (upToFault artifact false steps).2 with
  | some fault => exact .broken _ fault
  | none =>
    obtain ⟨hsteps, hall⟩ := upToFault_eq_none hf
    rw [hsteps]
    exact .whole hall (.in_a_row _)

theorem plus_perm (s : Summary) {calls calls' : List Call} (h : calls.Perm calls') :
    plus s calls = plus s calls' := by
  unfold plus
  rw [(h.filterMap _).length_eq, (h.filterMap _).length_eq, (h.filterMap _).length_eq]

theorem conflict?_perm {calls calls' : List Call} (h : calls.Perm calls')
    (hc : Store.conflict? [] [] calls = none) : Store.conflict? [] [] calls' = none := by
  rw [Store.conflict?_eq_none_iff] at hc ⊢
  obtain ⟨⟨hpaths, -⟩, hbindings, -⟩ := hc
  have hpaths' : ((calls'.filterMap Call.file?).map fun f => f.2.path).Nodup :=
    ((h.filterMap _).map _).nodup_iff.1 hpaths
  have hbindings' : ((calls'.filterMap Call.declaration?).map Store.DeclarationRow.binding).Nodup :=
    ((h.filterMap _).map _).nodup_iff.1 hbindings
  exact ⟨⟨hpaths', by simp⟩, hbindings', by simp⟩

theorem file_of_reference {artifact : String} {step : Step} {row : Store.ReferenceRow}
    (h : row ∈ (step.calls artifact).filterMap Call.reference?) :
    row.file ∈ ((step.calls artifact).filterMap Call.file?).map fun f => f.2.path := by
  cases step with
  | file path source =>
    rw [Step.calls, reference?_rows] at h
    obtain ⟨m, -, rfl⟩ := List.mem_map.1 h
    simp [Step.calls, file?_rows, sourceRow]
  | _ => simp [Step.calls, Call.reference?] at h

/-- The order of the steps cannot be told. -/
theorem alikeCalls_of_woven {artifact : String} {steps : List Step} {out : List Call}
    (hw : Woven (steps.map (Step.calls artifact)) out)
    (hc : Store.conflict? [] [] out = none) :
    Store.AlikeCalls out (steps.flatMap (Step.calls artifact)) := by
  have hperm := hw.perm
  rw [← List.flatMap_def] at hperm
  have hc' := hc
  rw [Store.conflict?_eq_none_iff] at hc'
  obtain ⟨⟨hpaths, -⟩, hbindings, -⟩ := hc'
  constructor
  · refine .of_perm (hperm.filterMap _) (List.Nodup.of_map Prod.snd ?_)
    simpa [Function.comp_def] using hpaths
  · refine .of_perm (hperm.filterMap _) (List.Nodup.of_map Prod.snd ?_)
    simpa [Function.comp_def] using hbindings
  · rw [List.flatMap_def, List.filterMap_flatten]
    refine (hw.filterMap Call.reference?).alike ?_
    rw [((hperm.filterMap Call.file?).map fun f => f.2.path).nodup_iff, List.filterMap_flatMap,
      List.map_flatMap, List.nodup_flatMap] at hpaths
    rw [List.map_map, List.pairwise_map]
    apply hpaths.2.imp
    intro step step' hdisjoint r hr r' hr' he
    have hfile : r.file = r'.file := (Prod.mk.inj he).2
    have hfrom := file_of_reference hr
    have hfrom' := file_of_reference hr'
    rw [← hfile] at hfrom'
    exact hdisjoint hfrom hfrom'
  · intro p
    exact (hperm.filterMap _).mem_iff
  · intro p
    exact (hperm.filterMap _).mem_iff

/-- A whole delivery is in conflict, or has no file, or gives the artifact its new rows. -/
theorem deliver_whole (x : Indexer) {artifact : String} {steps : List Step} {out : List Call}
    (hw : Woven (steps.map (Step.calls artifact)) out) :
    deliver x artifact ⟨opening artifact ++ out, close (plus { artifact := artifact } out)⟩ =
      match Store.conflict? [] [] out, close (plus { artifact := artifact } out) with
      | some fault, _ => (.error fault, x)
      | none, .error fault => (.error fault, x)
      | none, .ok summary => (.ok summary, { x with store := { x.store with
          tables := (x.store.tables.renew x.store.key artifact compileVersion).extendAll x.store.key
            out } }) := by
  have hadds : ∀ call ∈ out, call.Adds artifact := by
    intro call hcall
    refine Step.adds_flatMap_calls artifact steps call ?_
    rw [List.flatMap_def]
    exact hw.perm.mem_iff.1 hcall
  have hsession := Store.session_of_additions x.store artifact x.queueCapacity compileVersion out
    hadds (close (plus { artifact := artifact } out))
  have hopening : opening artifact ++ out =
      .clearArtifact artifact :: .insertArtifact artifact compileVersion :: out := rfl
  rw [deliver, hopening, hsession]
  cases Store.conflict? [] [] out with
  | some fault => rfl
  | none => cases close (plus { artifact := artifact } out) <;> rfl

/-- What the store becomes by a delivery that succeeds. -/
structure Renewed (x : Indexer) (artifact : String) (steps : List Step) (summary : Summary)
    (y : Indexer) : Prop where
  whole : ∀ step ∈ steps, step.fault? artifact true = none
  free : Store.conflict? [] [] (steps.flatMap (Step.calls artifact)) = none
  counted : summary = plus { artifact := artifact } (steps.flatMap (Step.calls artifact))
  files : summary.files ≠ 0
  key : y.store.key = x.store.key
  tables : y.store.tables.Alike ((x.store.tables.renew x.store.key artifact compileVersion).extendAll
    x.store.key (steps.flatMap (Step.calls artifact)))

/-- A delivery changes nothing, or gives the artifact its new rows. -/
theorem deliver_cases (x : Indexer) {artifact : String} {steps : List Step}
    {production : Production Summary} (h : Delivers artifact steps production) :
    (∃ fault, deliver x artifact production = (.error fault, x)) ∨
      ∃ summary y, deliver x artifact production = (.ok summary, y) ∧
        Renewed x artifact steps summary y := by
  cases h with
  | broken calls fault =>
    obtain ⟨fault', hsession⟩ := Store.session_of_error (α := Summary) x.store artifact
      x.queueCapacity calls fault
    refine .inl ⟨fault', ?_⟩
    rw [deliver, hsession]
  | @whole out hall hw =>
    rw [deliver_whole x hw]
    cases hc : Store.conflict? [] [] out with
    | some fault => exact .inl ⟨fault, rfl⟩
    | none =>
      have hperm := hw.perm
      rw [← List.flatMap_def] at hperm
      by_cases hfiles : (plus { artifact := artifact } out).files = 0
      · left
        simp only [close, if_pos hfiles]
        exact ⟨_, rfl⟩
      · right
        simp only [close, if_neg hfiles]
        have hadds := Step.adds_flatMap_calls artifact steps
        have hadds' : ∀ call ∈ out, call.Adds artifact := by
          intro call hcall
          exact hadds call (hperm.mem_iff.1 hcall)
        refine ⟨_, _, rfl, hall, conflict?_perm hperm hc, plus_perm _ hperm, hfiles, rfl, ?_⟩
        exact Store.Tables.extendAll_alike x.store.key (.refl _) (alikeCalls_of_woven hw hc) hadds'
          hadds

/-- The rows that are counted are the rows that are there. -/
theorem Renewed.status {x y : Indexer} {artifact : String} {steps : List Step} {summary : Summary}
    (h : Renewed x artifact steps summary y) :
    ∃ status, y.store.status artifact = .ok status ∧ summary.files = status.files ∧
      summary.declarations = status.declarations ∧ summary.references = status.references := by
  let calls := steps.flatMap (Step.calls artifact)
  have hadds : ∀ call ∈ calls, call.Adds artifact := Step.adds_flatMap_calls artifact steps
  have hstatus := Store.status_renewed x.store artifact compileVersion calls hadds
  rw [h.counted]
  refine ⟨_, (Store.status_alike h.tables artifact).trans hstatus, ?_, ?_, ?_⟩
  all_goals simp [plus, calls]

end CrossRef.Ingest
