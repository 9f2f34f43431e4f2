import CrossRef.Proofs.Store.Buffer

namespace CrossRef.Store

variable (key : Binding → Int64)

/-- Whether the binding of a row is declared among the rows of its artifact. -/
def isDeclared (ds : List (Keyed DeclarationRow)) (row : DeclarationRow) : Bool :=
  ds.any fun d => d.row.artifact = row.artifact ∧ d.row.binding = row.binding

/-- Adds a declaration to the stored ones, of which it may not repeat any. -/
def addFresh (ds : List (Keyed DeclarationRow)) (row : DeclarationRow) :
    List (Keyed DeclarationRow) :=
  if isDeclared ds row then ds else ds ++ [⟨key row.binding, row⟩]

namespace Tables

/-- Carries out a call at once; one that is refused changes nothing. -/
def perform (t : Tables) (call : Feed.Call) : Tables :=
  match t.refusal? call with
  | some _ => t
  | none => t.extend key call

def performAll (calls : List Feed.Call) (t : Tables) : Tables := calls.foldl (perform key) t

/-- The rows of one artifact. -/
def only (artifact : String) (t : Tables) : Tables where
  artifacts := t.artifacts.filter fun a => a.1 = artifact
  files := t.files.filter fun f => f.1 = artifact
  declarations := t.declarations.filter fun d => d.row.artifact = artifact
  references := t.references.filter fun r => r.row.artifact = artifact
  dependencies := t.dependencies.filter fun p => p.1 = artifact
  aliases := t.aliases.filter fun p => p.1 = artifact

variable {t t' : Tables}

theorem perform_declaration (t : Tables) (row : DeclarationRow) :
    t.perform key (.insertDeclaration row) =
      { t with declarations := addFresh key t.declarations row } := by
  have hsame : (t.declarations.any fun d => d.row.artifact = row.artifact ∧
      d.row.binding = row.binding) = isDeclared t.declarations row := rfl
  simp only [perform, refusal?, hsame, addFresh]
  cases isDeclared t.declarations row <;> rfl

theorem insertDeclarations_cons (t : Tables) (row : DeclarationRow) (rows : List DeclarationRow) :
    t.insertDeclarations key (row :: rows) =
      if isDeclared t.declarations row then
        (.error (.duplicateDeclaration row.artifact row.binding.text row.file), t)
      else (t.perform key (.insertDeclaration row)).insertDeclarations key rows := by
  have hsame : (t.declarations.any fun d => d.row.artifact = row.artifact ∧
      d.row.binding = row.binding) = isDeclared t.declarations row := rfl
  rw [perform_declaration, insertDeclarations, insertDeclaration, hsame, addFresh]
  cases isDeclared t.declarations row <;> rfl

theorem insertDeclarations_ok {rows : List DeclarationRow}
    (h : t.insertDeclarations key rows = (.ok (), t')) :
    t' = { t with declarations := rows.foldl (addFresh key) t.declarations } ∧
      ∀ before row behind, rows = before ++ row :: behind →
        isDeclared (before.foldl (addFresh key) t.declarations) row = false := by
  induction rows generalizing t with
  | nil => exact ⟨(Prod.mk.inj h).2.symm, by simp⟩
  | cons first rows ih =>
    rw [insertDeclarations_cons] at h
    split at h
    case isTrue => simp at h
    case isFalse hfresh =>
      rw [perform_declaration] at h
      obtain ⟨htables, hall⟩ := ih h
      refine ⟨htables, fun before row behind hrows => ?_⟩
      cases before with
      | nil =>
        obtain ⟨rfl, -⟩ := List.cons.inj hrows
        simpa using hfresh
      | cons _ before =>
        obtain ⟨rfl, hrest⟩ := List.cons.inj hrows
        exact hall before row behind hrest

end Tables

theorem isDeclared_filter {artifact : String} {row : DeclarationRow} (h : row.artifact ≠ artifact)
    (ds : List (Keyed DeclarationRow)) :
    isDeclared (ds.filter fun d => d.row.artifact ≠ artifact) row = isDeclared ds row := by
  rw [isDeclared, isDeclared, List.any_filter]
  congr 1
  funext d
  by_cases hd : d.row.artifact = row.artifact
  · simp [hd, h]
  · simp [hd]

theorem foldl_addFresh_filter (artifact : String) (rows : List DeclarationRow)
    (ds : List (Keyed DeclarationRow)) :
    (rows.foldl (addFresh key) ds).filter (fun d => d.row.artifact ≠ artifact) =
      (rows.filter fun row => row.artifact ≠ artifact).foldl (addFresh key)
        (ds.filter fun d => d.row.artifact ≠ artifact) := by
  induction rows generalizing ds with
  | nil => rfl
  | cons row rows ih =>
    rw [List.foldl_cons, ih]
    by_cases hrow : row.artifact = artifact
    · rw [List.filter_cons_of_neg (by simpa using hrow)]
      congr 1
      unfold addFresh
      split
      · rfl
      · simp [hrow]
    · rw [List.filter_cons_of_pos (by simpa using hrow), List.foldl_cons]
      congr 1
      rw [addFresh, addFresh, isDeclared_filter hrow]
      split
      · rfl
      · simp [hrow]

namespace Transaction

variable {tx tx' : Transaction}

/-- The tables where the rows held back are stored one by one. -/
def caughtUp (tx : Transaction) : Tables :=
  { tx.tables with
    declarations := tx.heldDeclarations.foldl (addFresh tx.base.key) tx.tables.declarations
    references :=
      tx.tables.references ++ tx.heldReferences.map fun row => ⟨tx.base.key row.target, row⟩ }

/-- A row of `artifact` is held back that can never be stored. -/
def Stuck (artifact : String) (tx : Transaction) : Prop :=
  ∃ before row behind, tx.heldDeclarations = before ++ row :: behind ∧ row.artifact = artifact ∧
    isDeclared (before.foldl (addFresh tx.base.key) tx.tables.declarations) row = true

/-- What a call that succeeds makes of the tables as they are without rows held back. -/
structure Performs (call : Feed.Call) (tx tx' : Transaction) : Prop where
  base : tx'.base = tx.base
  caughtUp : tx'.caughtUp = tx.caughtUp.perform tx.base.key call
  /-- A call that the tables would refuse is a declaration, whose row is stuck. -/
  refused : ∀ fault, tx.caughtUp.refusal? call = some fault →
    ∃ row, call = .insertDeclaration row ∧ tx'.Stuck row.artifact
  /-- Only the removal of its artifact gets a row unstuck. -/
  stuck : ∀ artifact, tx.Stuck artifact → call ≠ .clearArtifact artifact → tx'.Stuck artifact

theorem flushDeclarations_ok (h : tx.flushDeclarations = (.ok (), tx')) :
    tx' = { tx with
      tables := { tx.tables with
        declarations := tx.heldDeclarations.foldl (addFresh tx.base.key) tx.tables.declarations }
      heldDeclarations := [] } ∧ ∀ artifact, ¬ tx.Stuck artifact := by
  unfold flushDeclarations at h
  cases hrows : tx.tables.insertDeclarations tx.base.key tx.heldDeclarations with
  | mk outcome tables =>
    rw [hrows] at h
    obtain ⟨rfl, rfl⟩ := Prod.mk.inj h
    obtain ⟨rfl, hfresh⟩ := Tables.insertDeclarations_ok tx.base.key hrows
    refine ⟨rfl, ?_⟩
    rintro artifact ⟨before, row, behind, hheld, -, hdeclared⟩
    simp [hfresh before row behind hheld] at hdeclared

theorem clear_performs (tx : Transaction) (artifact : String) :
    Performs (.clearArtifact artifact) tx (tx.clear artifact) where
  base := rfl
  caughtUp := by
    have hrows := foldl_addFresh_filter tx.base.key artifact tx.heldDeclarations
      tx.tables.declarations
    simp only [Tables.perform, Tables.refusal?, Tables.extend, Tables.clear, clear,
      Transaction.caughtUp, hrows, List.filter_append, List.filter_map]
    rfl
  refused := by simp [Tables.refusal?]
  stuck := by
    rintro other ⟨before, row, behind, hheld, rfl, hdeclared⟩ hne
    have hrow : row.artifact ≠ artifact := fun he => hne (congrArg _ he.symm)
    refine ⟨before.filter fun r => r.artifact ≠ artifact, row,
      behind.filter fun r => r.artifact ≠ artifact, ?_, rfl, ?_⟩
    · rw [clear, hheld, List.filter_append, List.filter_cons_of_pos (by simpa using hrow)]
    · change isDeclared ((before.filter fun r => r.artifact ≠ artifact).foldl (addFresh tx.base.key)
        (tx.tables.declarations.filter fun d => d.row.artifact ≠ artifact)) row = true
      rw [← foldl_addFresh_filter, isDeclared_filter hrow, hdeclared]

theorem store_performs (call : Feed.Call) {result : Except Fault Tables}
    (h : tx.store result = (.ok (), tx'))
    (hresult : result = match tx.caughtUp.refusal? call with
      | some fault => .error fault
      | none => .ok (tx.tables.extend tx.base.key call))
    (hcaught : ({ tx with tables := tx.tables.extend tx.base.key call } : Transaction).caughtUp =
      tx.caughtUp.extend tx.base.key call)
    (hkept : (tx.tables.extend tx.base.key call).declarations = tx.tables.declarations) :
    Performs call tx tx' := by
  cases hrefusal : tx.caughtUp.refusal? call with
  | some fault => simp [hresult, hrefusal, store] at h
  | none =>
    simp only [hresult, hrefusal, store, Prod.mk.injEq, true_and] at h
    subst h
    refine ⟨rfl, ?_, by simp [hrefusal], ?_⟩
    · rw [hcaught, Tables.perform, hrefusal]
    · rintro artifact ⟨before, row, behind, hheld, hrow, hdeclared⟩ _
      refine ⟨before, row, behind, hheld, hrow, ?_⟩
      simpa only [hkept] using hdeclared

theorem declare_performs {row : DeclarationRow} (h : tx.declare row = (.ok (), tx')) :
    Performs (.insertDeclaration row) tx tx' := by
  let next : Transaction := { tx with
    declared := row.binding :: tx.declared
    heldDeclarations := tx.heldDeclarations ++ [row] }
  have hcaught : next.caughtUp = tx.caughtUp.perform tx.base.key (.insertDeclaration row) := by
    rw [Tables.perform_declaration]
    simp [next, Transaction.caughtUp]
  have hrefused : ∀ fault, tx.caughtUp.refusal? (.insertDeclaration row) = some fault →
      next.Stuck row.artifact := by
    intro fault hfault
    refine ⟨tx.heldDeclarations, row, [], rfl, rfl, ?_⟩
    simp only [Tables.refusal?] at hfault
    split at hfault
    case isTrue hdeclared => exact hdeclared
    case isFalse => simp at hfault
  have hstuck : ∀ artifact, tx.Stuck artifact → next.Stuck artifact := by
    rintro artifact ⟨before, r, behind, hheld, hrow, hdeclared⟩
    exact ⟨before, r, behind ++ [row], by simp [next, hheld], hrow, hdeclared⟩
  unfold declare at h
  split at h
  case isTrue => simp at h
  case isFalse =>
    simp only at h
    split at h
    case isTrue =>
      obtain ⟨rfl, hfree⟩ := flushDeclarations_ok h
      exact ⟨rfl, hcaught, fun fault hfault => absurd (hrefused fault hfault) (hfree _),
        fun artifact hheld _ => absurd (hstuck artifact hheld) (hfree artifact)⟩
    case isFalse =>
      obtain rfl : next = tx' := (Prod.mk.inj h).2
      exact ⟨rfl, hcaught, fun fault hfault => ⟨row, rfl, hrefused fault hfault⟩,
        fun artifact hheld _ => hstuck artifact hheld⟩

theorem refer_performs (tx : Transaction) (row : ReferenceRow) :
    Performs (.insertReference row) tx (tx.refer row) := by
  have hcaught : ∀ key : Binding → Int64, ∀ t : Tables,
      t.perform key (.insertReference row) = t.insertReferences key [row] := fun _ _ => rfl
  unfold refer
  simp only
  split
  · refine ⟨rfl, ?_, by simp [Tables.refusal?], fun artifact hheld _ => hheld⟩
    rw [hcaught]
    simp [Transaction.caughtUp, flushReferences, Tables.insertReferences]
  · refine ⟨rfl, ?_, by simp [Tables.refusal?], fun artifact hheld _ => hheld⟩
    rw [hcaught]
    simp [Transaction.caughtUp, Tables.insertReferences]

/-- What one call does, whether or not its row is held back. -/
theorem apply_performs {call : Feed.Call} (h : tx.apply call = (.ok (), tx')) :
    Performs call tx tx' := by
  cases call with
  | clearArtifact artifact =>
    obtain rfl : tx.clear artifact = tx' := (Prod.mk.inj h).2
    exact clear_performs tx artifact
  | insertArtifact artifact version =>
    exact store_performs _ h (Tables.insertArtifact_eq tx.base.key tx.tables _ _) rfl rfl
  | insertDependency artifact target =>
    have hstore : tx.store (.ok (tx.tables.insertDependency artifact target)) = (.ok (), tx') := h
    exact store_performs _ hstore rfl rfl rfl
  | insertAlias artifact name =>
    have hstore : tx.store (.ok (tx.tables.insertAlias artifact name)) = (.ok (), tx') := h
    exact store_performs _ hstore rfl rfl rfl
  | insertFile artifact row =>
    exact store_performs _ h (Tables.insertFile_eq tx.base.key tx.tables _ _) rfl rfl
  | insertDeclaration row => exact declare_performs h
  | insertReference row =>
    obtain rfl : tx.refer row = tx' := (Prod.mk.inj h).2
    exact refer_performs tx row

theorem applyAll_performs {calls : List Feed.Call}
    (h : provider.applyAll calls tx = (.ok (), tx')) :
    tx'.base = tx.base ∧ tx'.caughtUp = tx.caughtUp.performAll tx.base.key calls := by
  induction calls generalizing tx with
  | nil =>
    obtain rfl : tx = tx' := (Prod.mk.inj h).2
    exact ⟨rfl, rfl⟩
  | cons call rest ih =>
    obtain ⟨next, happly, hrest⟩ := provider.ok_of_applyAll_cons h
    have hcall := apply_performs happly
    obtain ⟨hbase, hcaught⟩ := ih hrest
    rw [hcall.base] at hbase
    rw [hcall.base, hcall.caughtUp] at hcaught
    exact ⟨hbase, hcaught⟩

/-- A transaction that is committed leaves the tables with all rows that were held back. -/
theorem commit_ok {s : Store} (h : tx.commit = (.ok (), s)) :
    s = { tx.base with tables := tx.caughtUp } ∧ ∀ artifact, ¬ tx.Stuck artifact := by
  unfold commit at h
  split at h
  case h_1 => simp at h
  case h_2 flushed hflush =>
    obtain ⟨rfl, hfree⟩ := flushDeclarations_ok hflush
    obtain rfl := (Prod.mk.inj h).2
    exact ⟨rfl, hfree⟩

theorem clear_of_stuck {calls : List Feed.Call} {s : Store} {artifact : String}
    (h : provider.applyAll calls tx = (.ok (), tx')) (hcommit : tx'.commit = (.ok (), s))
    (hstuck : tx.Stuck artifact) : .clearArtifact artifact ∈ calls := by
  induction calls generalizing tx with
  | nil =>
    obtain rfl : tx = tx' := (Prod.mk.inj h).2
    exact absurd hstuck ((commit_ok hcommit).2 artifact)
  | cons call rest ih =>
    by_cases hclear : call = .clearArtifact artifact
    · exact hclear ▸ List.mem_cons_self
    · obtain ⟨next, happly, hrest⟩ := provider.ok_of_applyAll_cons h
      exact List.mem_cons_of_mem _ (ih hrest ((apply_performs happly).stuck artifact hstuck hclear))

/-- What the removal of an artifact does to rows that are stored and rows that are held back. -/
structure Removes (artifact : String) (tx tx' : Transaction) : Prop where
  stored : tx'.tables.only artifact = {}
  held : (∀ row ∈ tx'.heldDeclarations, row.artifact ≠ artifact) ∧
    ∀ row ∈ tx'.heldReferences, row.artifact ≠ artifact
  others : ∀ other, other ≠ artifact → tx'.tables.only other = tx.tables.only other ∧
    tx'.heldDeclarations.filter (fun row => row.artifact = other) =
      tx.heldDeclarations.filter (fun row => row.artifact = other) ∧
    tx'.heldReferences.filter (fun row => row.artifact = other) =
      tx.heldReferences.filter (fun row => row.artifact = other)

end Transaction

theorem filter_ne_filter {ρ : Type} {owner : ρ → String} {artifact other : String}
    (h : other ≠ artifact) (rows : List ρ) :
    (rows.filter fun r => owner r ≠ artifact).filter (fun r => owner r = other) =
      rows.filter fun r => owner r = other := by
  rw [List.filter_filter]
  apply List.filter_congr
  intro r _
  by_cases hr : owner r = other
  · simp [hr, h]
  · simp [hr]

theorem filter_ne_filter_self {ρ : Type} (owner : ρ → String) (artifact : String) (rows : List ρ) :
    (rows.filter fun r => owner r ≠ artifact).filter (fun r => owner r = artifact) = [] := by
  simp [List.filter_filter]

namespace Transaction

theorem clear_removes (tx : Transaction) (artifact : String) :
    Removes artifact tx (tx.clear artifact) where
  stored := by
    simp only [clear, Tables.clear, Tables.only]
    congr 1
    all_goals exact filter_ne_filter_self _ artifact _
  held := by
    constructor
    all_goals
      intro row hrow
      simpa using (List.mem_filter.1 hrow).2
  others := by
    intro other hne
    refine ⟨?_, filter_ne_filter hne _, filter_ne_filter hne _⟩
    simp only [clear, Tables.clear, Tables.only]
    congr 1
    all_goals exact filter_ne_filter hne _

end Transaction

/-- A transaction that goes through leaves the tables as its calls do one by one. Carried out so, a
call may be refused that the transaction puts off, but only a declaration whose artifact is removed
later on. The removal of an artifact takes its rows, stored or held back, and no others. -/
theorem commit_performs {s s' : Store} {calls : List Feed.Call} {tx : Transaction}
    (hrun : provider.applyAll calls (.start s) = (.ok (), tx))
    (hcommit : tx.commit = (.ok (), s')) :
    s' = { s with tables := s.tables.performAll s.key calls } ∧
    (∀ before call behind fault, calls = before ++ call :: behind →
      (s.tables.performAll s.key before).refusal? call = some fault →
        ∃ row, call = .insertDeclaration row ∧ .clearArtifact row.artifact ∈ behind) ∧
    ∀ before artifact behind, calls = before ++ .clearArtifact artifact :: behind →
      ∃ tx₁ tx₂, provider.applyAll before (.start s) = (.ok (), tx₁) ∧
        tx₁.apply (.clearArtifact artifact) = (.ok (), tx₂) ∧
        provider.applyAll behind tx₂ = (.ok (), tx) ∧ tx₁.Removes artifact tx₂ := by
  have hstart : (Transaction.start s).caughtUp = s.tables := by
    simp [Transaction.start, Transaction.caughtUp]
  refine ⟨?_, ?_, ?_⟩
  · obtain ⟨hbase, hcaught⟩ := Transaction.applyAll_performs hrun
    rw [(Transaction.commit_ok hcommit).1, hbase, hcaught, hstart]
    rfl
  · rintro before call behind fault rfl hfault
    obtain ⟨tx₁, hbefore, hrest⟩ := provider.ok_of_applyAll_append hrun
    obtain ⟨tx₂, happly, hbehind⟩ := provider.ok_of_applyAll_cons hrest
    obtain ⟨-, hcaught⟩ := Transaction.applyAll_performs hbefore
    rw [hstart] at hcaught
    obtain ⟨row, hcall, hstuck⟩ :=
      (Transaction.apply_performs happly).refused fault (hcaught ▸ hfault)
    exact ⟨row, hcall, Transaction.clear_of_stuck hbehind hcommit hstuck⟩
  · rintro before artifact behind rfl
    obtain ⟨tx₁, hbefore, hrest⟩ := provider.ok_of_applyAll_append hrun
    obtain ⟨tx₂, happly, hbehind⟩ := provider.ok_of_applyAll_cons hrest
    obtain rfl : tx₁.clear artifact = tx₂ := (Prod.mk.inj happly).2
    exact ⟨tx₁, _, hbefore, rfl, hbehind, tx₁.clear_removes artifact⟩

/-- A declaration that is put off, removed and made again, beside rows of another artifact. -/
theorem commit_performs_cleared :
    let row (artifact binding : String) : DeclarationRow := ⟨artifact, ⟨binding⟩, "f", true⟩
    let s : Store := { key := fun _ => 0, batchSize := 2, tables := {
      declarations := [⟨0, row "a" "X"⟩, ⟨0, row "b" "X"⟩] } }
    let mention (artifact : String) (id : UInt32) : ReferenceRow :=
      ⟨⟨"X"⟩, .cast, artifact, "f", 1, id⟩
    let calls : List Feed.Call := [.insertReference (mention "b" 1), .insertDeclaration (row "a" "X"),
      .insertReference (mention "a" 2), .insertReference (mention "a" 3), .clearArtifact "a",
      .insertDeclaration (row "a" "X"), .insertDeclaration (row "a" "Y")]
    ∃ tx s', provider.applyAll calls (.start s) = (.ok (), tx) ∧ tx.commit = (.ok (), s') ∧
      s' = { s with tables := s.tables.performAll s.key calls } ∧
      s'.tables.references = [⟨0, mention "b" 1⟩] := by
  intro row s mention calls
  have happly : (provider.applyAll calls (.start s)).1 = .ok () := by decide +kernel
  have hcommit : (provider.applyAll calls (.start s)).2.commit.1 = .ok () := by decide +kernel
  have hreferences : (provider.applyAll calls (.start s)).2.commit.2.tables.references =
      [⟨0, mention "b" 1⟩] := by decide +kernel
  generalize hrun : provider.applyAll calls (.start s) = run at happly hcommit hreferences
  obtain ⟨outcome, tx⟩ := run
  obtain rfl : outcome = .ok () := happly
  generalize hend : tx.commit = closed at hcommit hreferences
  obtain ⟨outcome, s'⟩ := closed
  obtain rfl : outcome = .ok () := hcommit
  exact ⟨tx, s', rfl, hend, (commit_performs hrun hend).1, hreferences⟩

end CrossRef.Store
