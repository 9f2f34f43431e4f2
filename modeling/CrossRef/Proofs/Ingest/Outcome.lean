import CrossRef.Proofs.Ingest.Rows

namespace CrossRef.Ingest

open Feed (Call)

/-- The steps before the first that fails, and how that one fails. -/
def upToFault (artifact : String) (any : Bool) : List Step → List Step × Option Fault
  | [] => ([], none)
  | step :: rest =>
    match step.fault? artifact any with
    | some fault => ([], some fault)
    | none =>
      let (done, fault?) := upToFault artifact (any || step.isFile) rest
      (step :: done, fault?)

/-- What an ingest has to report. -/
def outcome (artifact : String) (steps : List Step) : Except Fault Summary :=
  let (done, fault?) := upToFault artifact false steps
  let calls := done.flatMap (Step.calls artifact)
  match Store.conflict? [] [] calls, fault? with
  | some fault, _ => .error fault
  | none, some fault => .error fault
  | none, none =>
    let files := (calls.filterMap Call.file?).length
    if files = 0 then .error (.emptyArtifact artifact)
    else .ok {
      artifact := artifact
      files := files
      declarations := (calls.filterMap Call.declaration?).length
      references := (calls.filterMap Call.reference?).length }

theorem performAll_eq (s : Summary) (steps : List Step) :
    performAll s steps =
      let done := upToFault s.artifact (s.files ≠ 0) steps
      let calls := done.1.flatMap (Step.calls s.artifact)
      ⟨calls, match done.2 with
        | some fault => .error fault
        | none => close (plus s calls)⟩ := by
  induction steps generalizing s with
  | nil => rfl
  | cons step rest ih =>
    rw [performAll, perform_eq, upToFault]
    cases step.fault? s.artifact (s.files ≠ 0) with
    | some fault => rfl
    | none =>
      have hany : decide ((plus s (step.calls s.artifact)).files ≠ 0) =
          (decide (s.files ≠ 0) || step.isFile) := by
        rw [isFile_eq s.artifact, ← Bool.decide_or]
        refine decide_eq_decide.2 ?_
        simp only [plus]
        omega
      simp only [ih, hany]
      change (⟨_, _⟩ : Feed.Production Summary) = ⟨_, _⟩
      simp only [List.flatMap_cons, plus_append]
      rfl

theorem production_eq (artifact : String) (steps : List Step) :
    production artifact steps =
      let done := upToFault artifact false steps
      let calls := done.1.flatMap (Step.calls artifact)
      ⟨.clearArtifact artifact :: .insertArtifact artifact compileVersion :: calls,
        match done.2 with
        | some fault => .error fault
        | none => close (plus { artifact := artifact } calls)⟩ := by
  rw [production, performAll_eq]
  rfl

/-- Neither the store nor the capacity of the queue nor the size of the batches has a say in what an
ingest reports, and from the clearing on no storing of rows held back can fail. -/
theorem ingest_outcome (x : Indexer) (artifact : String) (steps : List Step) :
    (x.ingest artifact steps).1 = outcome artifact steps ∧
    ∀ n : Nat,
      let tx := (Store.provider.applyAll ((production artifact steps).calls.take (n + 1))
        (.start x.store)).2
      tx.flushDeclarations.1 = .ok () ∧
      ∀ (b : Binding) (path : String) (isType : Bool),
        (tx.declare ⟨artifact, b, path, isType⟩).1 =
          if b ∈ tx.declared then .error (.duplicateDeclaration artifact b.text path)
          else .ok () := by
  constructor
  · rw [Indexer.ingest, production_eq]
    simp only
    rw [Store.session_of_additions _ _ _ _ _ (Step.adds_flatMap_calls artifact _), outcome]
    generalize upToFault artifact false steps = found
    obtain ⟨done, fault?⟩ := found
    simp only
    cases Store.conflict? [] [] (done.flatMap (Step.calls artifact)) with
    | some fault => rfl
    | none =>
      cases fault? with
      | some fault => rfl
      | none =>
        simp only [close, plus, Nat.zero_add]
        by_cases hnone :
          ((done.flatMap (Step.calls artifact)).filterMap Call.file?).length = 0
        · simp only [if_pos hnone]
        · simp only [if_neg hnone]
  · intro n
    have hcovers := Store.covers_take x.store artifact compileVersion
      ((upToFault artifact false steps).1.flatMap (Step.calls artifact)) n
      fun call hcall => (Step.adds_flatMap_calls artifact _ call hcall).artifact_eq
    rw [production_eq]
    refine ⟨?_, fun b path isType => Store.Transaction.declare_fst hcovers _ rfl⟩
    rw [Store.Transaction.flushDeclarations_of_covers hcovers]

end CrossRef.Ingest
