import CrossRef.Proofs.Store.Commit
import CrossRef.Proofs.Store.Growth

namespace CrossRef

namespace Feed.Call

variable {ρ : Type} (row? : Call → Option ρ) (owner : ρ → String)

/-- Rows behind a call, which may remove those of an artifact or add one. -/
def revise (rows : List ρ) : Call → List ρ
  | .clearArtifact artifact => rows.filter fun r => owner r ≠ artifact
  | call => rows ++ (row? call).toList

theorem revise_of_ne {call : Call} (h : ∀ artifact, call ≠ .clearArtifact artifact)
    (rows : List ρ) : revise row? owner rows call = rows ++ (row? call).toList := by
  cases call with
  | clearArtifact artifact => exact absurd rfl (h artifact)
  | _ => rfl

theorem revise_of_none {call : Call} (h : ∀ artifact, call ≠ .clearArtifact artifact)
    (hrow : row? call = none) (rows : List ρ) : revise row? owner rows call = rows := by
  rw [revise_of_ne row? owner h, hrow]
  exact List.append_nil rows

theorem mem_foldl_revise {r : ρ} {rows : List ρ} {calls : List Call}
    (hclear : .clearArtifact (owner r) ∉ calls) (h : r ∈ rows) :
    r ∈ calls.foldl (revise row? owner) rows := by
  induction calls generalizing rows with
  | nil => exact h
  | cons call rest ih =>
    rw [List.mem_cons, not_or] at hclear
    refine ih hclear.2 ?_
    cases call with
    | clearArtifact artifact =>
      have hne : owner r ≠ artifact := fun he => hclear.1 (congrArg _ he)
      exact List.mem_filter.2 ⟨h, by simpa using hne⟩
    | _ => exact List.mem_append_left _ h

/-- The reference of a call under its lookup number. -/
def keyedReference? (key : Binding → Int64) (call : Call) :
    Option (Store.Keyed Store.ReferenceRow) :=
  call.reference?.map fun row => ⟨key row.target, row⟩

end Feed.Call

namespace Store

open Feed (Call)

variable (key : Binding → Int64)

namespace Tables

variable {t t' : Tables} {rows : List DeclarationRow}

theorem insertDeclarations_stored (h : t.insertDeclarations key rows = (.ok (), t')) :
    t' = t.withHeld key rows [] := by
  induction rows generalizing t with
  | nil =>
    obtain rfl : t = t' := (Prod.mk.inj h).2
    simp [withHeld]
  | cons row rows ih =>
    rw [insertDeclarations_cons] at h
    split at h
    case isTrue => simp at h
    case isFalse hfresh =>
      rw [perform_declaration, addFresh, if_neg hfresh] at h
      rw [ih h]
      simp [withHeld]

/-- A batch that fails is stored up to the first row that is declared already. -/
theorem insertDeclarations_error {fault : Fault}
    (h : t.insertDeclarations key rows = (.error fault, t')) :
    ∃ ahead first lost, rows = ahead ++ first :: lost ∧
      t.insertDeclarations key ahead = (.ok (), t') ∧ isDeclared t'.declarations first = true ∧
      fault = .duplicateDeclaration first.artifact first.binding.text first.file := by
  induction rows generalizing t with
  | nil => simp [insertDeclarations] at h
  | cons row rows ih =>
    rw [insertDeclarations_cons] at h
    split at h
    case isTrue hdeclared =>
      obtain ⟨hfault, rfl⟩ := Prod.mk.inj h
      exact ⟨[], row, rows, rfl, rfl, hdeclared, (Except.error.inj hfault).symm⟩
    case isFalse hfresh =>
      obtain ⟨ahead, first, lost, rfl, hstored, hdeclared, hfault⟩ := ih h
      refine ⟨row :: ahead, first, lost, rfl, ?_, hdeclared, hfault⟩
      rw [insertDeclarations_cons, if_neg hfresh, hstored]

end Tables

namespace Transaction

variable {tx tx' : Transaction}

/-- Carries out calls in order, also behind one that fails. -/
def attemptAll (calls : List Call) (tx : Transaction) : Transaction :=
  calls.foldl (fun tx call => (tx.apply call).2) tx

theorem base_attemptAll (calls : List Call) (tx : Transaction) :
    (tx.attemptAll calls).base = tx.base := by
  induction calls generalizing tx with
  | nil => rfl
  | cons call rest ih => exact (ih _).trans (base_apply call tx)

/-- A declaration fills a batch of which only the rows `ahead` can be stored: the `first` behind
them is declared already. -/
structure Breaks (row : DeclarationRow) (ahead : List DeclarationRow) (first : DeclarationRow)
    (lost : List DeclarationRow) (tables : Tables) (tx : Transaction) : Prop where
  undeclared : row.binding ∉ tx.declared
  full : tx.batchSize ≤ (tx.heldDeclarations ++ [row]).length
  batch : tx.heldDeclarations ++ [row] = ahead ++ first :: lost
  stored : tx.tables.insertDeclarations tx.base.key ahead = (.ok (), tables)
  declared : isDeclared tables.declarations first = true

/-- What becomes of a call. Only a declaration that fills a batch can fail and leave a trace. -/
inductive Attempt (tx : Transaction) : Call → Except Fault Unit × Transaction → Prop
  | cleared (artifact : String) : Attempt tx (.clearArtifact artifact) (.ok (), tx.clear artifact)
  | referred (row : ReferenceRow) : Attempt tx (.insertReference row) (.ok (), tx.refer row)
  | passed {call : Call} {tables : Tables} (hclear : ∀ artifact, call ≠ .clearArtifact artifact)
      (hdeclaration : call.declaration? = none) (hreference : call.reference? = none)
      (hdeclarations : tables.declarations = tx.tables.declarations)
      (hreferences : tables.references = tx.tables.references) :
      Attempt tx call (.ok (), { tx with tables := tables })
  | refused {call : Call} {fault : Fault} (hclear : ∀ artifact, call ≠ .clearArtifact artifact)
      (hreference : call.reference? = none) : Attempt tx call (.error fault, tx)
  | held (row : DeclarationRow) : Attempt tx (.insertDeclaration row) (.ok (), { tx with
      declared := row.binding :: tx.declared
      heldDeclarations := tx.heldDeclarations ++ [row] })
  | stored {row : DeclarationRow} {tables : Tables} (h : tx.tables.insertDeclarations tx.base.key
      (tx.heldDeclarations ++ [row]) = (.ok (), tables)) :
      Attempt tx (.insertDeclaration row) (.ok (), { tx with
        tables := tables
        declared := row.binding :: tx.declared
        heldDeclarations := [] })
  | broken {row first : DeclarationRow} {ahead lost : List DeclarationRow} {tables : Tables}
      (h : tx.Breaks row ahead first lost tables) : Attempt tx (.insertDeclaration row)
        (.error (.duplicateDeclaration first.artifact first.binding.text first.file), { tx with
          tables := tables
          declared := row.binding :: tx.declared
          heldDeclarations := [] })

theorem attempt_declare (row : DeclarationRow) (tx : Transaction) :
    tx.Attempt (.insertDeclaration row) (tx.declare row) := by
  unfold declare
  split
  case isTrue => exact .refused (by simp) rfl
  case isFalse hundeclared =>
    simp only
    split
    case isFalse => exact .held row
    case isTrue hfull =>
      unfold flushDeclarations
      cases hbatch : tx.tables.insertDeclarations tx.base.key (tx.heldDeclarations ++ [row]) with
      | mk outcome tables =>
        cases outcome with
        | ok => exact .stored hbatch
        | error fault =>
          obtain ⟨ahead, first, lost, hrows, hstored, hdeclared, rfl⟩ :=
            Tables.insertDeclarations_error tx.base.key hbatch
          exact .broken ⟨hundeclared, hfull, hrows, hstored, hdeclared⟩

theorem attempt_store {call : Call} {result : Except Fault Tables}
    (hclear : ∀ artifact, call ≠ .clearArtifact artifact) (hdeclaration : call.declaration? = none)
    (hreference : call.reference? = none)
    (hresult : result = match tx.tables.refusal? call with
      | some fault => .error fault
      | none => .ok (tx.tables.extend tx.base.key call))
    (hdeclarations : (tx.tables.extend tx.base.key call).declarations = tx.tables.declarations)
    (hreferences : (tx.tables.extend tx.base.key call).references = tx.tables.references) :
    tx.Attempt call (tx.store result) := by
  rw [hresult]
  cases tx.tables.refusal? call with
  | some fault => exact .refused hclear hreference
  | none => exact .passed hclear hdeclaration hreference hdeclarations hreferences

theorem attempt_apply (call : Call) (tx : Transaction) : tx.Attempt call (tx.apply call) := by
  cases call with
  | clearArtifact artifact => exact .cleared artifact
  | insertDeclaration row => exact attempt_declare row tx
  | insertReference row => exact .referred row
  | insertArtifact artifact version =>
    have hresult := Tables.insertArtifact_eq tx.base.key tx.tables artifact version
    exact attempt_store (by simp) rfl rfl hresult rfl rfl
  | insertFile artifact row =>
    have hresult := Tables.insertFile_eq tx.base.key tx.tables artifact row
    exact attempt_store (by simp) rfl rfl hresult rfl rfl
  | insertDependency artifact target => exact .passed (by simp) rfl rfl rfl rfl
  | insertAlias artifact name => exact .passed (by simp) rfl rfl rfl rfl

/-- A call that fails changes nothing, or else it breaks a batch. -/
theorem apply_error {call : Call} {fault : Fault} (h : tx.apply call = (.error fault, tx')) :
    tx' = tx ∨ ∃ row ahead first lost tables, call = .insertDeclaration row ∧
      tx.Breaks row ahead first lost tables ∧ tx' = { tx with
        tables := tables
        declared := row.binding :: tx.declared
        heldDeclarations := [] } := by
  have hattempt := attempt_apply call tx
  rw [h] at hattempt
  cases hattempt with
  | refused => exact .inl rfl
  | broken hbreaks => exact .inr ⟨_, _, _, _, _, rfl, hbreaks, rfl⟩

theorem references_of_eq (hbase : tx'.base = tx.base)
    (hstored : tx'.tables.references = tx.tables.references)
    (hheld : tx'.heldReferences = tx.heldReferences) :
    tx'.caughtUp.references = tx.caughtUp.references := by
  simp only [caughtUp, hbase, hstored, hheld]

theorem references_insertDeclarations {rows : List DeclarationRow} {t t' : Tables}
    (h : t.insertDeclarations key rows = (.ok (), t')) : t'.references = t.references := by
  rw [Tables.insertDeclarations_stored key h]
  simp [Tables.withHeld]

/-- Whether or not a call fails, the references that are stored or held back are those that are
asked for. -/
theorem references_apply (call : Call) (tx : Transaction) :
    (tx.apply call).2.caughtUp.references =
      call.revise (Call.keyedReference? tx.base.key) (fun r => r.row.artifact)
        tx.caughtUp.references := by
  have hattempt := attempt_apply call tx
  generalize tx.apply call = result at hattempt
  cases hattempt with
  | cleared artifact =>
    rw [(clear_performs tx artifact).caughtUp]
    rfl
  | referred row =>
    rw [(refer_performs tx row).caughtUp]
    rfl
  | passed hclear _ hreference _ hreferences =>
    rw [Call.revise_of_none _ _ hclear (by simp [Call.keyedReference?, hreference])]
    exact references_of_eq rfl hreferences rfl
  | refused hclear hreference =>
    rw [Call.revise_of_none _ _ hclear (by simp [Call.keyedReference?, hreference])]
  | held row =>
    rw [Call.revise_of_none _ _ (by simp) rfl]
    exact references_of_eq rfl rfl rfl
  | stored h =>
    rw [Call.revise_of_none _ _ (by simp) rfl]
    exact references_of_eq rfl (references_insertDeclarations tx.base.key h) rfl
  | broken h =>
    rw [Call.revise_of_none _ _ (by simp) rfl]
    exact references_of_eq rfl (references_insertDeclarations tx.base.key h.stored) rfl

theorem references_attemptAll (calls : List Call) (tx : Transaction) :
    (tx.attemptAll calls).caughtUp.references =
      calls.foldl (Call.revise (Call.keyedReference? tx.base.key) fun r => r.row.artifact)
        tx.caughtUp.references := by
  induction calls generalizing tx with
  | nil => rfl
  | cons call rest ih =>
    have hrest := ih (tx.apply call).2
    rw [references_apply, base_apply] at hrest
    exact hrest

/-- A row that is stored or held back. -/
def Keeps (row : DeclarationRow) (tx : Transaction) : Prop :=
  ⟨tx.base.key row.binding, row⟩ ∈ tx.tables.declarations ∨ row ∈ tx.heldDeclarations

/-- A call breaks a batch that holds a row which is not stored with it. -/
def Loses (row : DeclarationRow) (call : Call) (tx : Transaction) : Prop :=
  ∃ last ahead first lost tables, call = .insertDeclaration last ∧
    tx.Breaks last ahead first lost tables ∧ row ∈ first :: lost

theorem mem_insertDeclarations {rows : List DeclarationRow} {t t' : Tables}
    (h : t.insertDeclarations key rows = (.ok (), t')) :
    (∀ d ∈ t.declarations, d ∈ t'.declarations) ∧
      ∀ row ∈ rows, ⟨key row.binding, row⟩ ∈ t'.declarations := by
  rw [Tables.insertDeclarations_stored key h]
  exact ⟨fun d hd => List.mem_append_left _ hd,
    fun row hrow => List.mem_append_right _ (List.mem_map_of_mem hrow)⟩

theorem keeps_of_ok {row : DeclarationRow} (h : (tx.apply (.insertDeclaration row)).1 = .ok ()) :
    (tx.apply (.insertDeclaration row)).2.Keeps row := by
  have hattempt := attempt_apply (.insertDeclaration row) tx
  generalize tx.apply (.insertDeclaration row) = result at h hattempt
  cases hattempt with
  | passed _ hdeclaration => simp [Call.declaration?] at hdeclaration
  | refused => simp at h
  | held => exact .inr (by simp)
  | stored hstored => exact .inl ((mem_insertDeclarations _ hstored).2 row (by simp))
  | broken => simp at h

/-- Until its artifact is removed, a row is kept or lost with a batch. -/
theorem keeps_apply {row : DeclarationRow} {call : Call} (h : tx.Keeps row)
    (hclear : call ≠ .clearArtifact row.artifact) :
    (tx.apply call).2.Keeps row ∨ tx.Loses row call := by
  have hattempt := attempt_apply call tx
  generalize tx.apply call = result at hattempt
  cases hattempt with
  | cleared artifact =>
    have hne : row.artifact ≠ artifact := fun he => hclear (congrArg _ he.symm)
    refine .inl (h.imp (fun h => ?_) fun h => ?_)
    · exact List.mem_filter.2 ⟨h, by simpa using hne⟩
    · exact List.mem_filter.2 ⟨h, by simpa using hne⟩
  | referred r =>
    left
    unfold refer
    simp only
    split <;> exact h
  | passed _ _ _ hdeclarations => exact .inl (h.imp_left fun h => hdeclarations ▸ h)
  | refused => exact .inl h
  | held last => exact .inl (h.imp_right (List.mem_append_left _))
  | stored hstored =>
    obtain ⟨hold, hnew⟩ := mem_insertDeclarations _ hstored
    exact .inl (.inl (h.elim (hold _) fun h => hnew row (List.mem_append_left _ h)))
  | @broken last first ahead lost tables hbreaks =>
    obtain ⟨hold, hnew⟩ := mem_insertDeclarations _ hbreaks.stored
    rcases h with h | h
    · exact .inl (.inl (hold _ h))
    · have hbatch : row ∈ ahead ++ first :: lost :=
        hbreaks.batch ▸ List.mem_append_left _ h
      rcases List.mem_append.1 hbatch with hahead | hlost
      · exact .inl (.inl (hnew row hahead))
      · exact .inr ⟨last, ahead, first, lost, tables, rfl, hbreaks, hlost⟩

theorem keeps_attemptAll {row : DeclarationRow} {calls : List Call} (h : tx.Keeps row)
    (hclear : .clearArtifact row.artifact ∉ calls) :
    (tx.attemptAll calls).Keeps row ∨ ∃ before call behind, calls = before ++ call :: behind ∧
      (tx.attemptAll before).Loses row call := by
  induction calls generalizing tx with
  | nil => exact .inl h
  | cons call rest ih =>
    rw [List.mem_cons, not_or] at hclear
    obtain ⟨hcall, hrest⟩ := hclear
    rcases keeps_apply h (Ne.symm hcall) with hkeeps | hloses
    · rcases ih hkeeps hrest with hkeeps | ⟨before, next, behind, rfl, hloses⟩
      · exact .inl hkeeps
      · exact .inr ⟨call :: before, next, behind, rfl, hloses⟩
    · exact .inr ⟨[], call, rest, rfl, hloses⟩

/-- A commit that succeeds stores all that is held back. -/
theorem commit_full {s : Store} (h : tx.commit = (.ok (), s)) :
    tx.tables.insertDeclarations tx.base.key tx.heldDeclarations =
        (.ok (), tx.tables.withHeld tx.base.key tx.heldDeclarations []) ∧
      s = { tx.base with tables := tx.full } := by
  unfold commit flushDeclarations at h
  cases hbatch : tx.tables.insertDeclarations tx.base.key tx.heldDeclarations with
  | mk outcome tables =>
    rw [hbatch] at h
    cases outcome with
    | error fault => simp at h
    | ok =>
      obtain rfl := Tables.insertDeclarations_stored tx.base.key hbatch
      refine ⟨rfl, ?_⟩
      rw [← (Prod.mk.inj h).2]
      simp [flushReferences, Tables.insertReferences, full, Tables.withHeld]

theorem commit_error {fault : Fault} {s : Store} (h : tx.commit = (.error fault, s)) :
    s = tx.base := by
  unfold commit at h
  split at h
  · exact (Prod.mk.inj h).2.symm
  · simp at h

end Transaction

/-- A transaction on a store behind calls of which some may have failed. -/
def attempt (s : Store) (calls : List Call) : Transaction := (Transaction.start s).attemptAll calls

theorem attempt_append (s : Store) (before behind : List Call) :
    s.attempt (before ++ behind) = (s.attempt before).attemptAll behind :=
  List.foldl_append

theorem base_attempt (s : Store) (calls : List Call) : (s.attempt calls).base = s :=
  Transaction.base_attemptAll calls (.start s)

theorem references_attempt (s : Store) (calls : List Call) :
    (s.attempt calls).full.references =
      calls.foldl (Call.revise (Call.keyedReference? s.key) fun r => r.row.artifact)
        s.tables.references := by
  have hstart : (Transaction.start s).caughtUp.references = s.tables.references := by
    simp [Transaction.start, Transaction.caughtUp]
  rw [← hstart]
  exact Transaction.references_attemptAll calls (.start s)

/-- A commit keeps every reference and every declaration that was accepted and whose artifact was
not removed afterwards, however many calls failed in between; only declarations that waited in a
batch which was broken are lost. A call that fails changes nothing unless it breaks a batch, of
which it stores the rows in front. -/
theorem commit_keeps {s s' : Store} {calls : List Call}
    (hcommit : (s.attempt calls).commit = (.ok (), s')) :
    (∀ before row behind, calls = before ++ .insertReference row :: behind →
      .clearArtifact row.artifact ∉ behind → ⟨s.key row.target, row⟩ ∈ s'.tables.references) ∧
    (∀ before row behind, calls = before ++ .insertDeclaration row :: behind →
      ((s.attempt before).apply (.insertDeclaration row)).1 = .ok () →
      .clearArtifact row.artifact ∉ behind → ⟨s.key row.binding, row⟩ ∈ s'.tables.declarations ∨
        ∃ between call rest, behind = between ++ call :: rest ∧
          (s.attempt (before ++ .insertDeclaration row :: between)).Loses row call) ∧
    ∀ before call behind fault tx, calls = before ++ call :: behind →
      (s.attempt before).apply call = (.error fault, tx) → tx = s.attempt before ∨
        ∃ row ahead first lost tables, call = .insertDeclaration row ∧
          (s.attempt before).Breaks row ahead first lost tables ∧ tx = { s.attempt before with
            tables := tables
            declared := row.binding :: (s.attempt before).declared
            heldDeclarations := [] } := by
  obtain rfl := (Transaction.commit_full hcommit).2
  refine ⟨?_, ?_, ?_⟩
  · rintro before row behind rfl hclear
    change _ ∈ (s.attempt _).full.references
    rw [references_attempt, List.foldl_append, List.foldl_cons]
    have hadded : ⟨s.key row.target, row⟩ ∈ (Call.insertReference row).revise
        (Call.keyedReference? s.key) (fun r => r.row.artifact)
        (before.foldl (Call.revise (Call.keyedReference? s.key) fun r => r.row.artifact)
          s.tables.references) :=
      List.mem_append_right _ List.mem_cons_self
    exact Call.mem_foldl_revise _ _ hclear hadded
  · rintro before row behind rfl hok hclear
    have hsplit : ∀ rest, s.attempt (before ++ .insertDeclaration row :: rest) =
        ((s.attempt before).apply (.insertDeclaration row)).2.attemptAll rest :=
      fun rest => s.attempt_append before _
    rcases Transaction.keeps_attemptAll (Transaction.keeps_of_ok hok) hclear with
      hkeeps | ⟨between, call, rest, rfl, hloses⟩
    · left
      rw [← hsplit, Transaction.Keeps, base_attempt] at hkeeps
      change _ ∈ (s.attempt _).tables.declarations ++ List.map _ _
      rw [base_attempt]
      exact List.mem_append.2 (hkeeps.imp_right List.mem_map_of_mem)
    · exact .inr ⟨between, call, rest, rfl, hsplit between ▸ hloses⟩
  · rintro before call behind fault tx rfl hfault
    exact Transaction.apply_error hfault

/-- Calls that fail at once and with a batch. -/
theorem commit_keeps_accepted :
    let row (artifact binding : String) : DeclarationRow := ⟨artifact, ⟨binding⟩, "f", true⟩
    let mention : ReferenceRow := ⟨⟨"X"⟩, .cast, "a", "f", 1, 0⟩
    let s : Store := { key := fun _ => 0, batchSize := 3, tables := {
      declarations := [⟨0, row "a" "X"⟩] } }
    let calls : List Call := [.insertReference mention, .insertDeclaration (row "a" "Y"),
      .insertDeclaration (row "b" "Y"), .insertDeclaration (row "a" "X"),
      .insertDeclaration (row "b" "Z")]
    ∃ s', (s.attempt calls).commit = (.ok (), s') ∧ ⟨0, mention⟩ ∈ s'.tables.references ∧
      ((s.attempt (calls.take 2)).apply (.insertDeclaration (row "b" "Y"))).1 ≠ .ok () ∧
      ((s.attempt (calls.take 4)).apply (.insertDeclaration (row "b" "Z"))).1 ≠ .ok () ∧
      s'.tables.declarations = [⟨0, row "a" "X"⟩, ⟨0, row "a" "Y"⟩] := by
  intro row mention s calls
  have hcommit : (s.attempt calls).commit.1 = .ok () := by decide +kernel
  have hdeclarations : (s.attempt calls).commit.2.tables.declarations =
      [⟨0, row "a" "X"⟩, ⟨0, row "a" "Y"⟩] := by decide +kernel
  generalize hend : (s.attempt calls).commit = closed at hcommit hdeclarations
  obtain ⟨outcome, s'⟩ := closed
  obtain rfl : outcome = .ok () := hcommit
  exact ⟨s', rfl, (commit_keeps hend).1 [] mention _ rfl (by decide), by decide +kernel,
    by decide +kernel, hdeclarations⟩

/-- A declaration is accepted and its artifact is not removed, but it is not stored: the batch that
it waits in is broken by the row of another artifact. -/
theorem accepted_declaration_lost :
    let row (artifact binding file : String) : DeclarationRow := ⟨artifact, ⟨binding⟩, file, true⟩
    let s : Store := { batchSize := 3, tables := {
      declarations := [⟨Binding.key ⟨"X"⟩, row "lib" "X" "A.java"⟩] } }
    let before : List Call := [.insertDeclaration (row "lib" "X" "B.java")]
    let behind : List Call :=
      [.insertDeclaration (row "lib" "Z" "B.java"), .clearArtifact "lib"]
    let lost : Call := .insertDeclaration (row "other" "Y" "B.java")
    ((s.attempt before).apply lost).1 = .ok () ∧ .clearArtifact "other" ∉ behind ∧
      ∃ s', (s.attempt (before ++ lost :: behind)).commit = (.ok (), s') ∧
        s'.declarations "other" = [] := by
  intro row s before behind lost
  have haccepted : ((s.attempt before).apply lost).1 = .ok () := by decide +kernel
  have hcommit : (s.attempt (before ++ lost :: behind)).commit.1 = .ok () := by decide +kernel
  have hnone : (s.attempt (before ++ lost :: behind)).commit.2.tables.declarations = [] := by
    decide +kernel
  generalize (s.attempt (before ++ lost :: behind)).commit = closed at hcommit hnone
  obtain ⟨outcome, s'⟩ := closed
  obtain rfl : outcome = .ok () := hcommit
  refine ⟨haccepted, by decide, s', rfl, ?_⟩
  rw [declarations, hnone]
  simp

end Store

end CrossRef
