import CrossRef.Proofs.Library.Renewal
import CrossRef.Proofs.Store.Reopening

namespace CrossRef

open Feed (Production)
open Ingest (Delivers)

/-- What can be done to an index. Producers may work side by side, and an index may be opened again
with another queue and other batches. -/
inductive Operation
  | ingest (artifact : String) (steps : List Step)
  | ingestIfStale (artifact : String) (steps : List Step)
  | ingestDump (dump : Dump) (force : Bool)
  | deliver (artifact : String) (steps : List Step) (production : Production Summary)
      (delivers : Delivers artifact steps production)
  | reopen (place : Store.Place) (logged : Bool) (queueCapacity batchSize : Nat)

/-- What an ingest has brought into the index, by what it reports. -/
def Ingested.gain? (artifact : String) (steps : List Step) :
    Except Fault Ingested → Option (String × Content)
  | .ok (.indexed _) => some (artifact, .ofSteps steps)
  | .ok (.skipped _) => none
  | .error _ => none

namespace Operation

/-- What an operation has brought into the index, and the index behind it. -/
def run (x : Indexer) : Operation → Option (Option (String × Content) × Indexer)
  | .ingest artifact steps =>
    let run := x.ingest artifact steps
    some (Ingested.gain? artifact steps (run.1.map .indexed), run.2)
  | .ingestIfStale artifact steps =>
    let run := x.ingestIfStale artifact steps
    some (Ingested.gain? artifact steps run.1, run.2)
  | .ingestDump dump force =>
    let run := x.ingestDump dump force
    some (Ingested.gain? dump.id (Ingest.stepsOf dump) run.1, run.2)
  | .deliver artifact steps production _ =>
    let run := Ingest.deliver x artifact production
    some (Ingested.gain? artifact steps (run.1.map .indexed), run.2)
  | .reopen place logged queueCapacity batchSize =>
    (place.reopen x.store.key logged x.store.tables).map fun tables =>
      (none, ⟨⟨x.store.key, batchSize, tables⟩, queueCapacity⟩)

/-- What operations have brought into the index one after the other, and the index behind them. -/
def runAll : List Operation → Indexer → Option (List (String × Content) × Indexer)
  | [], x => some ([], x)
  | operation :: rest, x =>
    (operation.run x).bind fun first =>
      (runAll rest first.2).map fun others => (first.1.toList ++ others.1, others.2)

end Operation

theorem Ingest.Delivers.holds {x : Indexer} {l : Library} (h : x.store.Holds l) {artifact : String}
    {steps : List Step} {production : Production Summary}
    (hd : Delivers artifact steps production) :
    let run := Ingest.deliver x artifact production
    run.2.store.Holds
      ((Ingested.gain? artifact steps (run.1.map .indexed)).toList.foldl Catalog.put l) := by
  intro run
  rcases Ingest.deliver_cases x hd with ⟨fault, hrun⟩ | ⟨summary, y, hrun, hy⟩
  · simp only [run, hrun]
    exact h
  · simp only [run, hrun]
    exact hy.holds h

theorem Indexer.ingestIfStale_holds {x : Indexer} {l : Library} (h : x.store.Holds l)
    (artifact : String) (steps : List Step) :
    let run := x.ingestIfStale artifact steps
    run.2.store.Holds ((Ingested.gain? artifact steps run.1).toList.foldl Catalog.put l) := by
  intro run
  have hingest := (Ingest.production_delivers artifact steps).holds h
  by_cases hstale : x.store.needsRecompile artifact compileVersion = true
  · have hrun : run = ((x.ingest artifact steps).1.map .indexed, (x.ingest artifact steps).2) := by
      simp only [run, ingestIfStale, if_pos hstale]
    rw [hrun]
    exact hingest
  · have hrun : run = (.ok (.skipped artifact), x) := by
      simp only [run, ingestIfStale, if_neg hstale]
    rw [hrun]
    exact h

/-- One operation changes the index as it changes the library. -/
theorem Operation.run_holds {x : Indexer} {l : Library} (h : x.store.Holds l)
    (operation : Operation) :
    ∃ gain y, operation.run x = some (gain, y) ∧ y.store.Holds (gain.toList.foldl Catalog.put l) := by
  cases operation with
  | ingest artifact steps =>
    exact ⟨_, _, rfl, (Ingest.production_delivers artifact steps).holds h⟩
  | ingestIfStale artifact steps =>
    exact ⟨_, _, rfl, Indexer.ingestIfStale_holds h artifact steps⟩
  | ingestDump dump force =>
    refine ⟨_, _, rfl, ?_⟩
    cases force with
    | true => exact (Ingest.production_delivers dump.id (Ingest.stepsOf dump)).holds h
    | false => exact Indexer.ingestIfStale_holds h dump.id (Ingest.stepsOf dump)
  | deliver artifact steps production delivers =>
    exact ⟨_, _, rfl, delivers.holds h⟩
  | reopen place logged queueCapacity batchSize =>
    refine ⟨none, ⟨⟨x.store.key, batchSize, x.store.tables⟩, queueCapacity⟩, ?_, h⟩
    rw [run, place.reopen_eq h.keyed logged]
    rfl

theorem Operation.runAll_holds {x : Indexer} {l : Library} (h : x.store.Holds l)
    (history : List Operation) :
    ∃ log y, runAll history x = some (log, y) ∧ y.store.Holds (log.foldl Catalog.put l) := by
  induction history generalizing x l with
  | nil => exact ⟨[], x, rfl, h⟩
  | cons operation rest ih =>
    obtain ⟨gain, y, hrun, hy⟩ := operation.run_holds h
    obtain ⟨log, z, hrest, hz⟩ := ih hy
    refine ⟨gain.toList ++ log, z, ?_, ?_⟩
    · simp only [runAll, hrun, Option.bind_some, hrest, Option.map_some]
    · rwa [List.foldl_append]

end CrossRef
