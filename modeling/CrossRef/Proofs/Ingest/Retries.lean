import CrossRef.Proofs.Ingest.Delivery
import CrossRef.Proofs.Store.Commit

namespace CrossRef

open Feed (Call Production)

namespace Store

section Pairs

variable {artifact other : String} (text : String) (ps : List (String × String))

theorem filter_insertPair :
    (insertPair (artifact, text) ps).filter (fun p => p.1 = artifact) =
      insertPair (artifact, text) (ps.filter fun p => p.1 = artifact) := by
  unfold insertPair
  by_cases hp : (artifact, text) ∈ ps
  · rw [if_pos hp, if_pos (List.mem_filter.2 ⟨hp, by simp⟩)]
  · rw [if_neg hp, if_neg fun hmem => hp (List.mem_filter.1 hmem).1, List.filter_append]
    simp

theorem filter_insertPair_other (h : artifact ≠ other) :
    (insertPair (artifact, text) ps).filter (fun p => p.1 = other) =
      ps.filter fun p => p.1 = other := by
  unfold insertPair
  split
  · rfl
  · rw [List.filter_append]
    simp [h]

end Pairs

namespace Tables

variable (key : Binding → Int64)

theorem only_extend (t : Tables) {call : Call} {artifact : String} (h : call.artifact = artifact) :
    (t.extend key call).only artifact = (t.only artifact).extend key call := by
  cases call with
  | clearArtifact owner =>
    obtain rfl : owner = artifact := h
    simp only [extend, only, clear]
    congr 1
    all_goals exact List.filter_comm _ _ _
  | insertArtifact owner version =>
    obtain rfl : owner = artifact := h
    simp [extend, only, List.filter_append]
  | insertDependency owner target =>
    obtain rfl : owner = artifact := h
    simp only [extend, only, insertDependency, filter_insertPair]
  | insertAlias owner name =>
    obtain rfl : owner = artifact := h
    simp only [extend, only, insertAlias, filter_insertPair]
  | insertFile owner row =>
    obtain rfl : owner = artifact := h
    simp [extend, only, List.filter_append]
  | insertDeclaration row =>
    obtain rfl : row.artifact = artifact := h
    simp [extend, only, List.filter_append]
  | insertReference row =>
    obtain rfl : row.artifact = artifact := h
    simp [extend, only, insertReferences, List.filter_append]

theorem only_extend_other (t : Tables) {call : Call} {other : String} (h : call.artifact ≠ other) :
    (t.extend key call).only other = t.only other := by
  cases call with
  | clearArtifact owner =>
    simp only [extend, only, clear]
    congr 1
    all_goals exact filter_ne_filter (Ne.symm h) _
  | insertArtifact owner version =>
    have howner : owner ≠ other := h
    simp [extend, only, List.filter_append, howner]
  | insertDependency owner target =>
    have howner : owner ≠ other := h
    simp only [extend, only, insertDependency, filter_insertPair_other target _ howner]
  | insertAlias owner name =>
    have howner : owner ≠ other := h
    simp only [extend, only, insertAlias, filter_insertPair_other name _ howner]
  | insertFile owner row =>
    have howner : owner ≠ other := h
    simp [extend, only, List.filter_append, howner]
  | insertDeclaration row =>
    have howner : row.artifact ≠ other := h
    simp [extend, only, List.filter_append, howner]
  | insertReference row =>
    have howner : row.artifact ≠ other := h
    simp [extend, only, insertReferences, List.filter_append, howner]

theorem only_extendAll {artifact : String} {calls : List Call}
    (hc : ∀ call ∈ calls, call.artifact = artifact) (t : Tables) :
    (t.extendAll key calls).only artifact = (t.only artifact).extendAll key calls := by
  induction calls generalizing t with
  | nil => rfl
  | cons call rest ih =>
    calc ((t.extend key call).extendAll key rest).only artifact
      _ = ((t.extend key call).only artifact).extendAll key rest :=
        ih (fun c hmem => hc c (List.mem_cons_of_mem _ hmem)) _
      _ = ((t.only artifact).extend key call).extendAll key rest := by
        rw [t.only_extend key (hc call List.mem_cons_self)]

theorem only_extendAll_other {other : String} {calls : List Call}
    (hc : ∀ call ∈ calls, call.artifact ≠ other) (t : Tables) :
    (t.extendAll key calls).only other = t.only other := by
  induction calls generalizing t with
  | nil => rfl
  | cons call rest ih =>
    calc ((t.extend key call).extendAll key rest).only other
      _ = (t.extend key call).only other := ih (fun c hmem => hc c (List.mem_cons_of_mem _ hmem)) _
      _ = t.only other := t.only_extend_other key (hc call List.mem_cons_self)

end Tables

theorem artifactVersion?_eq (s : Store) (artifact : String) :
    s.artifactVersion? artifact = ((s.tables.only artifact).artifacts.head?).map Prod.snd := by
  rw [artifactVersion?, Tables.only, List.head?_filter]

theorem needsRecompile_congr {s s' : Store} {artifact : String}
    (h : s.tables.only artifact = s'.tables.only artifact) (version : Int64) :
    s.needsRecompile artifact version = s'.needsRecompile artifact version := by
  rw [needsRecompile, needsRecompile, artifactVersion?_eq, artifactVersion?_eq, h]

theorem needsRecompile_eq_false_iff (s : Store) (artifact : String) (version : Int64) :
    s.needsRecompile artifact version = false ↔
      ∃ last, s.artifactVersion? artifact = some last ∧ version ≤ last := by
  rw [needsRecompile]
  cases s.artifactVersion? artifact with
  | none => simp
  | some last => simp [Int64.not_lt]

end Store

namespace Ingest

open Store (Tables)

/-- What producers can make of an artifact that write to nothing else. Those that fail, or give up
half of what they began, may have sent whatever calls. -/
inductive Produces (artifact : String) : Production Summary → Prop
  | through {out : List Call} (result : Except Fault Summary) :
      (∀ call ∈ out, call.Adds artifact) → Produces artifact ⟨opening artifact ++ out, result⟩
  | broken (calls : List Call) (fault : Fault) : Produces artifact ⟨calls, .error fault⟩

/-- Steps are delivered in this way whether or not they are woven. -/
theorem Delivers.produces {artifact : String} {steps : List Step} {production : Production Summary}
    (h : Delivers artifact steps production) : Produces artifact production := by
  cases h with
  | broken calls fault => exact .broken calls fault
  | whole _ hw =>
    refine .through _ fun call hcall => Step.adds_flatMap_calls artifact steps call ?_
    rw [List.flatMap_def]
    exact hw.perm.mem_iff.1 hcall

/-- An attempt to ingest an artifact. What its producers find and leave of the world is of type `ω`,
so that it can be told whether they were run. -/
structure Attempt (ω : Type) where
  artifact : String
  forced : Bool
  produce : ω → Production Summary × ω
  produces : ∀ w, Produces artifact (produce w).1

/-- An attempt by steps that are taken one after the other. -/
def Attempt.ofSteps {ω : Type} (artifact : String) (forced : Bool) (steps : ω → List Step × ω) :
    Attempt ω where
  artifact := artifact
  forced := forced
  produce w := (production artifact (steps w).1, (steps w).2)
  produces w := (production_delivers artifact (steps w).1).produces

variable {ω : Type}

/-- The producers are asked only if the artifact is stale or the attempt is forced. -/
def Attempt.run (attempt : Attempt ω) (here : Indexer × ω) : Except Fault Ingested × Indexer × ω :=
  if attempt.forced ∨ here.1.store.needsRecompile attempt.artifact compileVersion then
    let (production, w) := attempt.produce here.2
    let (result, x) := deliver here.1 attempt.artifact production
    (result.map .indexed, x, w)
  else (.ok (.skipped attempt.artifact), here)

/-- With steps in a row this is the ingest of a stale artifact, whose steps are only asked for where
it is stale. -/
theorem run_ofSteps (artifact : String) (steps : ω → List Step × ω) (x : Indexer) (w : ω) :
    (Attempt.ofSteps artifact false steps).run (x, w) =
      ((x.ingestIfStale artifact (steps w).1).1, (x.ingestIfStale artifact (steps w).1).2,
        if x.store.needsRecompile artifact compileVersion then (steps w).2 else w) := by
  simp only [Attempt.run, Attempt.ofSteps, Indexer.ingestIfStale, Bool.false_eq_true, false_or]
  split <;> rfl

/-- A dump is there before it is known whether it is needed, so that the world plays no part. -/
theorem run_ofDump (d : Dump) (force : Bool) (x : Indexer) (w : ω) :
    (Attempt.ofSteps d.id force fun w => (stepsOf d, w)).run (x, w) =
      ((x.ingestDump d force).1, (x.ingestDump d force).2, w) := by
  cases force with
  | true => rfl
  | false =>
    rw [run_ofSteps]
    simp [Indexer.ingestDump]

/-- Attempts one after the other; the log has what each of them reports. -/
def runAll : List (Attempt ω) → Indexer × ω → List (String × Except Fault Ingested) × Indexer × ω
  | [], here => ([], here)
  | attempt :: rest, here =>
    let (result, here) := attempt.run here
    let (log, here) := runAll rest here
    ((attempt.artifact, result) :: log, here)

theorem runAll_append (before after : List (Attempt ω)) (here : Indexer × ω) :
    runAll (before ++ after) here =
      ((runAll before here).1 ++ (runAll after (runAll before here).2).1,
        (runAll after (runAll before here).2).2) := by
  induction before generalizing here with
  | nil => rfl
  | cons attempt before ih => simp only [List.cons_append, runAll, ih]

/-- The index with the rows that calls make. -/
def written (x : Indexer) (calls : List Call) : Indexer :=
  { x with store := { x.store with tables := x.store.tables.extendAll x.store.key calls } }

/-- How an attempt ends. -/
inductive Attempt.Ends (attempt : Attempt ω) (here : Indexer × ω) :
    Except Fault Ingested × Indexer × ω → Prop
  | skipped : attempt.forced = false →
      here.1.store.needsRecompile attempt.artifact compileVersion = false →
      Ends attempt here (.ok (.skipped attempt.artifact), here)
  | failed (fault : Fault) :
      attempt.forced = true ∨ here.1.store.needsRecompile attempt.artifact compileVersion = true →
      Ends attempt here (.error fault, here.1, (attempt.produce here.2).2)
  | indexed {out : List Call} {summary : Summary} :
      attempt.forced = true ∨ here.1.store.needsRecompile attempt.artifact compileVersion = true →
      (attempt.produce here.2).1 = ⟨opening attempt.artifact ++ out, .ok summary⟩ →
      (∀ call ∈ out, call.Adds attempt.artifact) →
      Ends attempt here (.ok (.indexed summary),
        written here.1 (opening attempt.artifact ++ out), (attempt.produce here.2).2)

/-- What is delivered changes nothing, or all its calls are carried out. -/
theorem deliver_produced (x : Indexer) {artifact : String} {production : Production Summary}
    (h : Produces artifact production) :
    (∃ fault, deliver x artifact production = (.error fault, x)) ∨
      ∃ out summary, production = ⟨opening artifact ++ out, .ok summary⟩ ∧
        (∀ call ∈ out, call.Adds artifact) ∧
        deliver x artifact production = (.ok summary, written x (opening artifact ++ out)) := by
  cases h with
  | broken calls fault =>
    obtain ⟨fault', hsession⟩ := Store.session_of_error (α := Summary) x.store artifact
      x.queueCapacity calls fault
    exact .inl ⟨fault', by rw [deliver, hsession]⟩
  | @through out result hadds =>
    have hsession := Store.session_of_additions x.store artifact x.queueCapacity compileVersion out
      hadds result
    have hopening : opening artifact ++ out =
      .clearArtifact artifact :: .insertArtifact artifact compileVersion :: out := rfl
    cases hconflict : Store.conflict? [] [] out with
    | some fault =>
      rw [hconflict] at hsession
      exact .inl ⟨fault, by rw [deliver, hopening, hsession]⟩
    | none =>
      rw [hconflict] at hsession
      cases result with
      | error fault => exact .inl ⟨fault, by rw [deliver, hopening, hsession]⟩
      | ok summary =>
        refine .inr ⟨out, summary, rfl, hadds, ?_⟩
        rw [deliver, hopening, hsession]
        rfl

theorem Attempt.run_current (attempt : Attempt ω) {here : Indexer × ω}
    (hplain : attempt.forced = false)
    (h : here.1.store.needsRecompile attempt.artifact compileVersion = false) :
    attempt.run here = (.ok (.skipped attempt.artifact), here) := by
  rw [run, hplain, h]
  simp

theorem Attempt.run_stale (attempt : Attempt ω) {here : Indexer × ω}
    (h : attempt.forced = true ∨
      here.1.store.needsRecompile attempt.artifact compileVersion = true) :
    attempt.run here =
      ((deliver here.1 attempt.artifact (attempt.produce here.2).1).1.map .indexed,
        (deliver here.1 attempt.artifact (attempt.produce here.2).1).2,
        (attempt.produce here.2).2) := by
  rw [run, if_pos h]

theorem Attempt.run_ends (attempt : Attempt ω) (here : Indexer × ω) :
    attempt.Ends here (attempt.run here) := by
  by_cases hrun : attempt.forced = true ∨
      here.1.store.needsRecompile attempt.artifact compileVersion = true
  · rw [attempt.run_stale hrun]
    rcases deliver_produced here.1 (attempt.produces here.2) with
      ⟨fault, hdeliver⟩ | ⟨out, summary, hproduction, hadds, hdeliver⟩
    · rw [hdeliver]
      exact .failed fault hrun
    · rw [hdeliver]
      exact .indexed hrun hproduction hadds
  · simp only [not_or, Bool.not_eq_true] at hrun
    rw [attempt.run_current hrun.1 hrun.2]
    exact .skipped hrun.1 hrun.2

namespace Attempt.Ends

variable {attempt : Attempt ω} {here : Indexer × ω} {run : Except Fault Ingested × Indexer × ω}
variable (h : attempt.Ends here run)
include h

theorem of_stale (hstale : here.1.store.needsRecompile attempt.artifact compileVersion = true) :
    (∃ fault, run.1 = .error fault ∧ run.2.1 = here.1) ∨
      ∃ summary, run.1 = .ok (.indexed summary) := by
  cases h with
  | skipped _ hcurrent => simp [hcurrent] at hstale
  | failed fault _ => exact .inl ⟨fault, rfl, rfl⟩
  | @indexed out summary _ _ _ => exact .inr ⟨summary, rfl⟩

theorem of_indexed {summary : Summary} (hok : run.1 = .ok (.indexed summary)) :
    ∃ out, (attempt.produce here.2).1 = ⟨opening attempt.artifact ++ out, .ok summary⟩ ∧
      (∀ call ∈ out, call.Adds attempt.artifact) ∧
      run.2.1 = written here.1 (opening attempt.artifact ++ out) := by
  cases h with
  | skipped _ _ => simp at hok
  | failed fault _ => simp at hok
  | @indexed out summary' _ hproduction hadds =>
    obtain rfl : summary' = summary := by simpa using hok
    exact ⟨out, hproduction, hadds, rfl⟩

end Attempt.Ends

section Written

variable {artifact : String} {out : List Call} (hadds : ∀ call ∈ out, call.Adds artifact)
include hadds

theorem artifact_of_opening : ∀ call ∈ opening artifact ++ out, call.artifact = artifact := by
  intro call hcall
  rcases List.mem_append.1 hcall with hopening | hout
  · simp only [opening, List.mem_cons, List.not_mem_nil, or_false] at hopening
    rcases hopening with rfl | rfl <;> rfl
  · exact (hadds call hout).artifact_eq

theorem only_written (x : Indexer) :
    (written x (opening artifact ++ out)).store.tables.only artifact =
      ({} : Tables).extendAll x.store.key (opening artifact ++ out) := by
  have hcleared : ((x.store.tables.only artifact).clear artifact) = {} := by
    simp [Tables.clear, Tables.only, List.filter_filter]
  rw [written, Tables.only_extendAll _ (artifact_of_opening hadds)]
  change (((x.store.tables.only artifact).clear artifact).extend _
    (.insertArtifact artifact compileVersion)).extendAll _ out = _
  rw [hcleared]
  rfl

theorem only_written_other (x : Indexer) {other : String} (h : artifact ≠ other) :
    (written x (opening artifact ++ out)).store.tables.only other = x.store.tables.only other := by
  refine Tables.only_extendAll_other _ (fun call hcall => ?_) _
  rw [artifact_of_opening hadds call hcall]
  exact h

theorem current_written (x : Indexer) :
    (written x (opening artifact ++ out)).store.needsRecompile artifact compileVersion = false := by
  rw [Store.needsRecompile_eq_false_iff]
  refine ⟨compileVersion, ?_, Int64.le_refl _⟩
  rw [Store.artifactVersion?_eq, only_written hadds]
  change Option.map _ ((Tables.extendAll _
    (({} : Tables).renew x.store.key artifact compileVersion) out).artifacts.head?) = _
  rw [Tables.extendAll_eq _ artifact out _ hadds]
  rfl

end Written

/-- The log of attempts has one on the artifact that succeeded. -/
def Won (artifact : String) (log : List (String × Except Fault Ingested)) : Prop :=
  ∃ summary, (artifact, .ok (.indexed summary)) ∈ log

/-- What unforced attempts on an artifact, with any attempts on others, do to its rows: one that
succeeds finds the artifact stale and leaves it current. -/
structure Settles (artifact : String) (log : List (String × Except Fault Ingested))
    (x y : Indexer) : Prop where
  key : y.store.key = x.store.key
  kept : ¬ Won artifact log → y.store.tables.only artifact = x.store.tables.only artifact
  won : Won artifact log → x.store.needsRecompile artifact compileVersion = true ∧
    y.store.needsRecompile artifact compileVersion = false

section Settles

variable {artifact : String} {log log' : List (String × Except Fault Ingested)} {x y z : Indexer}

theorem not_won_nil (artifact : String) : ¬ Won artifact [] := by
  rintro ⟨summary, hmem⟩
  simp at hmem

theorem won_append : Won artifact (log ++ log') ↔ Won artifact log ∨ Won artifact log' := by
  simp only [Won, List.mem_append, exists_or]

theorem won_singleton {name : String} {result : Except Fault Ingested} :
    Won artifact [(name, result)] ↔ name = artifact ∧ ∃ summary, result = .ok (.indexed summary) := by
  simp only [Won, List.mem_singleton, Prod.mk.injEq]
  constructor
  · rintro ⟨summary, rfl, rfl⟩
    exact ⟨rfl, summary, rfl⟩
  · rintro ⟨rfl, summary, rfl⟩
    exact ⟨summary, rfl, rfl⟩

theorem Settles.of_lost (h : ¬ Won artifact log) (x : Indexer) : Settles artifact log x x :=
  ⟨rfl, fun _ => rfl, fun hwon => absurd hwon h⟩

theorem Settles.lost (h : Settles artifact log x y)
    (hcurrent : x.store.needsRecompile artifact compileVersion = false) : ¬ Won artifact log := by
  intro hwon
  have hstale := (h.won hwon).1
  rw [hcurrent] at hstale
  simp at hstale

theorem Settles.trans (h : Settles artifact log x y) (h' : Settles artifact log' y z) :
    Settles artifact (log ++ log') x z where
  key := h'.key.trans h.key
  kept hlost := by
    rw [won_append, not_or] at hlost
    exact (h'.kept hlost.2).trans (h.kept hlost.1)
  won hwon := by
    by_cases hfirst : Won artifact log
    · obtain ⟨hstale, hcurrent⟩ := h.won hfirst
      have hkept := h'.kept (h'.lost hcurrent)
      exact ⟨hstale, (Store.needsRecompile_congr hkept _).trans hcurrent⟩
    · obtain ⟨hstale, hcurrent⟩ := h'.won ((won_append.1 hwon).resolve_left hfirst)
      exact ⟨(Store.needsRecompile_congr (h.kept hfirst) _).symm.trans hstale, hcurrent⟩

/-- Whether an artifact is settled, by what was stored at first and by the log since then. -/
theorem Settles.stale_iff (h : Settles artifact log x y) :
    y.store.needsRecompile artifact compileVersion = true ↔
      x.store.needsRecompile artifact compileVersion = true ∧ ¬ Won artifact log := by
  by_cases hwon : Won artifact log
  · simp [(h.won hwon).2, hwon]
  · rw [Store.needsRecompile_congr (h.kept hwon)]
    simp [hwon]

end Settles

theorem Attempt.run_settles (attempt : Attempt ω) (here : Indexer × ω) {artifact : String}
    (hunforced : attempt.artifact = artifact → attempt.forced = false) :
    Settles artifact [(attempt.artifact, (attempt.run here).1)] here.1 (attempt.run here).2.1 := by
  have hends := attempt.run_ends here
  generalize attempt.run here = run at hends
  cases hends with
  | skipped _ _ => exact .of_lost (by simp [won_singleton]) here.1
  | failed fault _ => exact .of_lost (by simp [won_singleton]) here.1
  | @indexed out summary hrun _ hadds =>
    refine ⟨rfl, fun hlost => ?_, fun hwon => ?_⟩
    · have hother : attempt.artifact ≠ artifact := by
        intro hsame
        exact hlost (won_singleton.2 ⟨hsame, summary, rfl⟩)
      exact only_written_other hadds here.1 hother
    · obtain ⟨rfl, -⟩ := won_singleton.1 hwon
      have hstale := hrun.resolve_left (by simp [hunforced rfl])
      exact ⟨hstale, current_written hadds here.1⟩

theorem runAll_settles (artifact : String) (attempts : List (Attempt ω)) (here : Indexer × ω)
    (hunforced : ∀ attempt ∈ attempts, attempt.artifact = artifact → attempt.forced = false) :
    Settles artifact (runAll attempts here).1 here.1 (runAll attempts here).2.1 := by
  induction attempts generalizing here with
  | nil => exact .of_lost (not_won_nil artifact) here.1
  | cons attempt rest ih =>
    have hfirst := attempt.run_settles here (hunforced attempt List.mem_cons_self)
    have hrest := ih (attempt.run here).2 fun t ht => hunforced t (List.mem_cons_of_mem _ ht)
    exact hfirst.trans hrest

/-- However attempts on an artifact without force are mixed with any attempts on others: where the
artifact is current, or an attempt on it has succeeded, an attempt leaves the index and the world as
they are; where not, its producers are run, and a failure leaves the index as it is. What is stored
of the artifact in the end are the rows that the calls of its first success make of no rows at all,
or what was stored in the beginning. -/
theorem retries_settle (before after : List (Attempt ω)) (attempt : Attempt ω) (here : Indexer × ω)
    (hunforced : ∀ t ∈ before ++ attempt :: after,
      t.artifact = attempt.artifact → t.forced = false) :
    let artifact := attempt.artifact
    let now := (runAll before here).2
    let run := attempt.run now
    let produced := attempt.produce now.2
    let whole := runAll (before ++ attempt :: after) here
    let settled := (∃ version, here.1.store.artifactVersion? artifact = some version ∧
      compileVersion ≤ version) ∨ Won artifact (runAll before here).1
    (settled → run = (.ok (.skipped artifact), now)) ∧
    (¬ settled →
      now.1.store.tables.only artifact = here.1.store.tables.only artifact ∧
      run = ((deliver now.1 artifact produced.1).1.map .indexed,
        (deliver now.1 artifact produced.1).2, produced.2) ∧
      ((∃ fault, run.1 = .error fault ∧ run.2.1 = now.1) ∨
        ∃ summary, run.1 = .ok (.indexed summary))) ∧
    (∀ summary, run.1 = .ok (.indexed summary) → ¬ settled ∧ produced.1.result = .ok summary ∧
      whole.2.1.store.tables.only artifact =
        ({} : Tables).extendAll here.1.store.key produced.1.calls) ∧
    (¬ Won artifact whole.1 →
      whole.2.1.store.tables.only artifact = here.1.store.tables.only artifact) := by
  intro artifact now run produced whole settled
  have hplain : attempt.forced = false :=
    hunforced attempt (List.mem_append_right _ List.mem_cons_self) rfl
  have hends : attempt.Ends now run := attempt.run_ends now
  have hbefore : Settles artifact (runAll before here).1 here.1 now.1 :=
    runAll_settles artifact before here fun t ht => hunforced t (List.mem_append_left _ ht)
  have hafter : Settles artifact (runAll after run.2).1 run.2.1 (runAll after run.2).2.1 :=
    runAll_settles artifact after run.2 fun t ht =>
      hunforced t (List.mem_append_right _ (List.mem_cons_of_mem _ ht))
  have hwhole : whole.2 = (runAll after run.2).2 := by
    simp only [whole, runAll_append, runAll, run, now]
  have hstale : now.1.store.needsRecompile artifact compileVersion = true ↔ ¬ settled := by
    rw [hbefore.stale_iff, not_or, ← Bool.not_eq_false, ← Store.needsRecompile_eq_false_iff]
  refine ⟨?_, ?_, ?_, (runAll_settles artifact _ here hunforced).kept⟩
  · intro hsettled
    have hcurrent : now.1.store.needsRecompile artifact compileVersion = false := by
      rw [← Bool.not_eq_true, hstale, not_not]
      exact hsettled
    exact attempt.run_current hplain hcurrent
  · intro hopen
    have hkept := hbefore.kept fun hwon => hopen (.inr hwon)
    exact ⟨hkept, attempt.run_stale (.inr (hstale.2 hopen)), hends.of_stale (hstale.2 hopen)⟩
  · intro summary hok
    obtain ⟨out, hproduced, hadds, hrows⟩ := hends.of_indexed hok
    have hsettles : Settles artifact [(artifact, run.1)] now.1 run.2.1 :=
      attempt.run_settles now fun _ => hplain
    obtain ⟨hbehind, hcurrent⟩ := hsettles.won (won_singleton.2 ⟨rfl, summary, hok⟩)
    refine ⟨hstale.1 hbehind, congrArg Production.result hproduced, ?_⟩
    calc whole.2.1.store.tables.only artifact
      _ = run.2.1.store.tables.only artifact := by
        rw [hwhole, hafter.kept (hafter.lost hcurrent)]
      _ = ({} : Tables).extendAll now.1.store.key (opening artifact ++ out) := by
        rw [hrows, only_written hadds]
      _ = ({} : Tables).extendAll here.1.store.key produced.1.calls := by
        rw [hbefore.key, hproduced]

/-- An attempt that fails half way, a dump of another artifact, an attempt that succeeds and one that
is passed over. The world counts the producers that were run for the artifact. -/
theorem retries_settle_second :
    let file (path : String) : Step := .file path ⟨"", []⟩
    let attempt (steps : List Step) : Attempt Nat := .ofSteps "a" false fun w => (steps, w + 1)
    let first := attempt [file "x", .fail (.emptyArtifact "a")]
    let second := attempt [file "y"]
    let third := attempt [file "z"]
    let d : Dump := ⟨"b", ["a"], [], ⟨[("x", ⟨"", []⟩)], by decide⟩⟩
    let other : Attempt Nat := .ofSteps d.id true fun w => (stepsOf d, w)
    let x : Indexer := ⟨{}, 0⟩
    let x₁ := (x.ingestIfStale "a" [file "x", .fail (.emptyArtifact "a")]).2
    let x₂ := (x₁.ingestDump d true).2
    let x₃ := (x₂.ingestIfStale "a" [file "y"]).2
    (∀ t ∈ [first, other] ++ second :: [third], t.artifact = second.artifact → t.forced = false) ∧
      (second.run (runAll [first, other] (x, 0)).2).1 = .ok (.indexed ⟨"a", 1, 0, 0⟩) ∧
      (runAll ([first, other] ++ second :: [third]) (x, 0)).2.1 =
        (x₃.ingestIfStale "a" [file "z"]).2 ∧
      (runAll ([first, other] ++ second :: [third]) (x, 0)).2.2 = 2 ∧
      (runAll ([first, other] ++ second :: [third]) (x, 0)).2.1.store.tables.only "a" =
        ({} : Tables).extendAll x.store.key (production "a" [file "y"]).calls := by
  intro file attempt first second third d other x x₁ x₂ x₃
  have hunforced : ∀ t ∈ [first, other] ++ second :: [third],
      t.artifact = second.artifact → t.forced = false := by
    simp [first, second, third, other, attempt, d, Attempt.ofSteps]
  have hok : (second.run (runAll [first, other] (x, 0)).2).1 = .ok (.indexed ⟨"a", 1, 0, 0⟩) := by
    decide +kernel
  have hindex : (runAll ([first, other] ++ second :: [third]) (x, 0)).2.1 =
      (x₃.ingestIfStale "a" [file "z"]).2 := by
    simp only [runAll_append, runAll, first, other, second, third, attempt, run_ofSteps,
      run_ofDump, x₃, x₂, x₁]
  have hworld : (runAll ([first, other] ++ second :: [third]) (x, 0)).2.2 = 2 := by decide +kernel
  obtain ⟨-, -, hrows, -⟩ := retries_settle [first, other] [third] second (x, 0) hunforced
  have hcalls : (second.produce (runAll [first, other] (x, 0)).2.2).1.calls =
      (production "a" [file "y"]).calls := rfl
  refine ⟨hunforced, hok, hindex, hworld, ?_⟩
  rw [← hcalls]
  exact (hrows _ hok).2.2

end Ingest

end CrossRef
