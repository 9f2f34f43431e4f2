import CrossRef.Proofs.Store.Lookup
import Mathlib.Data.List.Induction

namespace CrossRef.Store

open Feed (Call)

/-- Calls ask for `row` behind the calls `before`, and do not remove its artifact afterwards. -/
def Asks (calls before : List Call) (row : DeclarationRow) : Prop :=
  ∃ behind, calls = before ++ .insertDeclaration row :: behind ∧
    .clearArtifact row.artifact ∉ behind

/-- Calls ask for `row`, and do not remove any artifact afterwards. -/
def Announces (calls : List Call) (row : DeclarationRow) : Prop :=
  ∃ before behind, calls = before ++ .insertDeclaration row :: behind ∧
    ∀ artifact, .clearArtifact artifact ∉ behind

/-- Behind some calls an artifact declares a binding: it did so in the store or a call asked for it,
and its rows were not removed since. -/
def Declares (s : Store) (calls : List Call) (artifact : String) (b : Binding) : Prop :=
  (∃ row ∈ s.declarations artifact, row.binding = b) ∧ .clearArtifact artifact ∉ calls ∨
    ∃ before row, Asks calls before row ∧ row.artifact = artifact ∧ row.binding = b

/-- Calls ask for a row whose artifact declares its binding already. -/
def Repeats (s : Store) (calls : List Call) (row : DeclarationRow) : Prop :=
  ∃ before, Asks calls before row ∧ s.Declares before row.artifact row.binding

/-- What is reported of a row that is not accepted. -/
def DeclarationRow.clash (row : DeclarationRow) : Fault :=
  .duplicateDeclaration row.artifact row.binding.text row.file

variable {s : Store} {calls before : List Call} {row other : DeclarationRow} {call : Call}

theorem asks_last (calls : List Call) (row : DeclarationRow) :
    Asks (calls ++ [.insertDeclaration row]) calls row :=
  ⟨[], rfl, List.not_mem_nil⟩

theorem Asks.snoc (h : Asks calls before row) (hcall : call ≠ .clearArtifact row.artifact) :
    Asks (calls ++ [call]) before row := by
  obtain ⟨behind, rfl, hbehind⟩ := h
  refine ⟨behind ++ [call], by simp, ?_⟩
  rw [List.mem_append, List.mem_singleton, not_or]
  exact ⟨hbehind, hcall.symm⟩

theorem Announces.asks (h : Announces calls row) : ∃ before, Asks calls before row := by
  obtain ⟨before, behind, hcalls, hbehind⟩ := h
  exact ⟨before, behind, hcalls, hbehind row.artifact⟩

theorem not_announces_clear (artifact : String) :
    ¬ Announces (calls ++ [.clearArtifact artifact]) row := by
  rintro ⟨before, behind, hcalls, hbehind⟩
  rcases List.eq_nil_or_concat behind with rfl | ⟨rest, last, rfl⟩
  · have hlast := (List.append_inj' hcalls rfl).2
    simp at hlast
  · rw [List.concat_eq_append, ← List.cons_append, ← List.append_assoc] at hcalls
    have hlast : [.clearArtifact artifact] = [last] := (List.append_inj' hcalls rfl).2
    obtain rfl := (List.cons.inj hlast).1
    exact hbehind artifact (by simp)

theorem announces_snoc (hcall : ∀ artifact, call ≠ .clearArtifact artifact) :
    Announces (calls ++ [call]) row ↔ call = .insertDeclaration row ∨ Announces calls row := by
  constructor
  · rintro ⟨before, behind, hcalls, hbehind⟩
    rcases List.eq_nil_or_concat behind with rfl | ⟨rest, last, rfl⟩
    · have hlast := (List.append_inj' hcalls rfl).2
      exact .inl (List.cons.inj hlast).1
    · rw [List.concat_eq_append] at hcalls hbehind
      rw [← List.cons_append, ← List.append_assoc] at hcalls
      have hfront := (List.append_inj' hcalls rfl).1
      exact .inr ⟨before, rest, hfront, fun artifact hmem =>
        hbehind artifact (List.mem_append_left _ hmem)⟩
  · rintro (rfl | ⟨before, behind, rfl, hbehind⟩)
    · exact ⟨calls, [], rfl, fun _ => List.not_mem_nil⟩
    · refine ⟨before, behind ++ [call], by simp, fun artifact => ?_⟩
      rw [List.mem_append, List.mem_singleton, not_or]
      exact ⟨hbehind artifact, (hcall artifact).symm⟩

theorem submitted_snoc (calls : List Call) (call : Call) :
    submitted (calls ++ [call]) =
      call.revise Call.declaration? DeclarationRow.artifact (submitted calls) := by
  rw [submitted, List.foldl_append]
  rfl

/-- A declaration that is left was asked for by a call, and those in front of it by earlier calls. -/
theorem asks_of_submitted {front back : List DeclarationRow}
    (h : submitted calls = front ++ row :: back) :
    ∃ before, Asks calls before row ∧ ∀ r ∈ front, ∃ earlier, Asks before earlier r := by
  -- The last call removes rows, adds one at the end or leaves them, so that a row of the list before
  -- it has the same rows in front of it, and maybe more.
  induction calls using List.reverseRecOn generalizing front row back with
  | nil => simp [submitted] at h
  | append_singleton calls call ih =>
    rw [submitted_snoc] at h
    by_cases hclear : ∃ artifact, call = .clearArtifact artifact
    · obtain ⟨artifact, rfl⟩ := hclear
      obtain ⟨kept, rest, hsplit, hkept, hrest⟩ := List.filter_eq_append_iff.1 h
      obtain ⟨gone, last, rfl, -, hrow, -⟩ := List.filter_eq_cons_iff.1 hrest
      obtain ⟨before, hasks, hfront⟩ := ih (hsplit.trans (List.append_assoc kept gone _).symm)
      have hne : row.artifact ≠ artifact := of_decide_eq_true hrow
      refine ⟨before, hasks.snoc fun he => hne (Call.clearArtifact.inj he).symm, ?_⟩
      intro r hr
      have hmem : r ∈ kept := List.mem_of_mem_filter (hkept ▸ hr)
      exact hfront r (List.mem_append_left _ hmem)
    · have hother : ∀ artifact, call ≠ .clearArtifact artifact :=
        fun artifact he => hclear ⟨artifact, he⟩
      rw [Call.revise_of_ne _ _ hother] at h
      cases hnew : call.declaration? with
      | none =>
        rw [hnew, Option.toList_none, List.append_nil] at h
        obtain ⟨before, hasks, hfront⟩ := ih h
        exact ⟨before, hasks.snoc (hother _), hfront⟩
      | some last =>
        obtain rfl : call = .insertDeclaration last := by
          cases call with
          | insertDeclaration r => exact congrArg _ (Option.some.inj hnew)
          | _ => simp [Call.declaration?] at hnew
        rw [hnew, Option.toList_some] at h
        rcases List.eq_nil_or_concat back with rfl | ⟨rest, r, rfl⟩
        · obtain ⟨hfront, hlast⟩ := List.append_inj' h rfl
          obtain rfl : last = row := (List.cons.inj hlast).1
          refine ⟨calls, asks_last calls last, fun r hr => ?_⟩
          obtain ⟨front, back, hsplit⟩ := List.append_of_mem (hfront ▸ hr)
          obtain ⟨before, hasks, -⟩ := ih hsplit
          exact ⟨before, hasks⟩
        · rw [List.concat_eq_append, ← List.cons_append, ← List.append_assoc] at h
          obtain ⟨before, hasks, hfront⟩ := ih (List.append_inj' h rfl).1
          exact ⟨before, hasks.snoc (hother _), hfront⟩

/-- What a transaction has come to behind calls that all succeeded: of the rows that were stored when
it began, those of artifacts that were not removed, and behind them the rows that were asked for. The
bindings that are refused at once are those of any artifact since the last removal. -/
structure Accepted (s : Store) (calls : List Call) (tx : Transaction) : Prop where
  rows : ∃ fresh, tx.tables.declarations.map Keyed.row =
      (s.tables.declarations.map Keyed.row).filter
        (fun row => .clearArtifact row.artifact ∉ calls) ++ fresh ∧
    fresh ++ tx.heldDeclarations = submitted calls
  declared : ∀ b, b ∈ tx.declared ↔ ∃ row, Announces calls row ∧ row.binding = b

namespace Accepted

variable {tx tx' : Transaction}

theorem start (s : Store) : Accepted s [] (.start s) := by
  refine ⟨⟨[], by simp [Transaction.start], rfl⟩, fun b => ?_⟩
  have hnone : ∀ row, ¬ Announces [] row := by
    rintro row ⟨before, behind, hcalls, -⟩
    simp at hcalls
  simp [Transaction.start, hnone]

theorem filter_snoc (hcall : ∀ artifact, call ≠ .clearArtifact artifact)
    (rows : List DeclarationRow) :
    rows.filter (fun row => .clearArtifact row.artifact ∉ calls ++ [call]) =
      rows.filter fun row => .clearArtifact row.artifact ∉ calls := by
  apply List.filter_congr
  intro row _
  apply decide_eq_decide.2
  have hne := (hcall row.artifact).symm
  rw [List.mem_append, List.mem_singleton, not_or]
  exact and_iff_left hne

theorem pass (h : Accepted s calls tx) (hcall : ∀ artifact, call ≠ .clearArtifact artifact)
    (hdeclaration : call.declaration? = none)
    (htables : tx'.tables.declarations = tx.tables.declarations)
    (hheld : tx'.heldDeclarations = tx.heldDeclarations) (hdeclared : tx'.declared = tx.declared) :
    Accepted s (calls ++ [call]) tx' := by
  obtain ⟨fresh, hstored, hrows⟩ := h.rows
  constructor
  · refine ⟨fresh, ?_, ?_⟩
    · rw [htables, filter_snoc hcall, hstored]
    · rw [hheld, submitted_snoc, Call.revise_of_none _ _ hcall hdeclaration, hrows]
  · intro b
    have hnot : ∀ row, call ≠ .insertDeclaration row := by
      rintro row rfl
      simp [Call.declaration?] at hdeclaration
    simp only [announces_snoc hcall, hnot, false_or, hdeclared]
    exact h.declared b

theorem clear (h : Accepted s calls tx) (artifact : String) :
    Accepted s (calls ++ [.clearArtifact artifact]) (tx.clear artifact) := by
  obtain ⟨fresh, hstored, hrows⟩ := h.rows
  constructor
  · refine ⟨fresh.filter fun row => row.artifact ≠ artifact, ?_, ?_⟩
    · have hremoved : (tx.clear artifact).tables.declarations.map Keyed.row =
          (tx.tables.declarations.map Keyed.row).filter fun row => row.artifact ≠ artifact := by
        rw [List.filter_map]
        rfl
      rw [hremoved, hstored, List.filter_append, List.filter_filter]
      congr 1
      apply List.filter_congr
      intro row _
      rw [← Bool.decide_and]
      apply decide_eq_decide.2
      rw [List.mem_append, List.mem_singleton, Call.clearArtifact.injEq, not_or, and_comm]
    · rw [submitted_snoc, ← hrows]
      exact (List.filter_append ..).symm
  · intro b
    simp only [not_announces_clear, false_and, exists_false, iff_false]
    exact List.not_mem_nil

theorem hold (h : Accepted s calls tx) (row : DeclarationRow) :
    Accepted s (calls ++ [.insertDeclaration row]) { tx with
      declared := row.binding :: tx.declared
      heldDeclarations := tx.heldDeclarations ++ [row] } := by
  have hcall : ∀ artifact, Call.insertDeclaration row ≠ .clearArtifact artifact := by simp
  obtain ⟨fresh, hstored, hrows⟩ := h.rows
  constructor
  · refine ⟨fresh, ?_, ?_⟩
    · rw [filter_snoc hcall, hstored]
    · rw [submitted_snoc, Call.revise_of_ne _ _ hcall, ← hrows]
      exact (List.append_assoc ..).symm
  · intro b
    simp only [announces_snoc hcall, Call.insertDeclaration.injEq, List.mem_cons, h.declared]
    constructor
    · rintro (rfl | ⟨r, hr, hb⟩)
      · exact ⟨row, .inl rfl, rfl⟩
      · exact ⟨r, .inr hr, hb⟩
    · rintro ⟨r, rfl | hr, hb⟩
      · exact .inl hb.symm
      · exact .inr ⟨r, hr, hb⟩

/-- Rows that are stored have been asked for before. -/
theorem store (h : Accepted s calls tx) {tables : Tables} (hbatch : tx.tables.insertDeclarations
    tx.base.key tx.heldDeclarations = (.ok (), tables)) :
    Accepted s calls { tx with tables := tables, heldDeclarations := [] } := by
  obtain rfl := Tables.insertDeclarations_stored tx.base.key hbatch
  obtain ⟨fresh, hstored, hrows⟩ := h.rows
  refine ⟨⟨fresh ++ tx.heldDeclarations, ?_, by rw [List.append_nil, hrows]⟩, h.declared⟩
  simp only [Tables.withHeld, List.map_append, List.map_map, hstored, List.append_assoc]
  congr 2
  exact List.map_id _

theorem apply (h : Accepted s calls tx) (hok : tx.apply call = (.ok (), tx')) :
    Accepted s (calls ++ [call]) tx' := by
  have hattempt := Transaction.attempt_apply call tx
  rw [hok] at hattempt
  cases hattempt with
  | cleared artifact => exact h.clear artifact
  | referred row =>
    unfold Transaction.refer
    simp only
    split
    · exact h.pass (by simp) rfl rfl rfl rfl
    · exact h.pass (by simp) rfl rfl rfl rfl
  | passed hclear hdeclaration _ hdeclarations =>
    exact h.pass hclear hdeclaration hdeclarations rfl rfl
  | held row => exact h.hold row
  | stored hstored => exact (h.hold _).store hstored

theorem applyAll {more : List Call} (h : Accepted s calls tx)
    (hrun : provider.applyAll more tx = (.ok (), tx')) : Accepted s (calls ++ more) tx' := by
  induction more generalizing calls tx with
  | nil =>
    obtain rfl : tx = tx' := (Prod.mk.inj hrun).2
    rwa [List.append_nil]
  | cons call rest ih =>
    obtain ⟨next, happly, hrest⟩ := provider.ok_of_applyAll_cons hrun
    have hnext := ih (h.apply happly) hrest
    rwa [List.append_assoc] at hnext

/-- The row that a batch fails at repeats one that is stored or stands in front of it. -/
theorem repeats (h : Accepted s calls tx) {ahead lost : List DeclarationRow} {tables : Tables}
    (hheld : tx.heldDeclarations = ahead ++ row :: lost)
    (hahead : tx.tables.insertDeclarations tx.base.key ahead = (.ok (), tables))
    (hdeclared : isDeclared tables.declarations row = true) : s.Repeats calls row := by
  obtain ⟨fresh, hstored, hrows⟩ := h.rows
  obtain rfl := Tables.insertDeclarations_stored tx.base.key hahead
  have hsubmitted : submitted calls = (fresh ++ ahead) ++ row :: lost := by
    rw [← hrows, hheld, List.append_assoc]
  obtain ⟨before, hasks, hfront⟩ := asks_of_submitted hsubmitted
  obtain ⟨d, hd, hsame⟩ := List.any_eq_true.1 hdeclared
  obtain ⟨hartifact, hbinding⟩ := of_decide_eq_true hsame
  have hmem : d.row ∈ tx.tables.declarations.map Keyed.row ++ ahead := by
    rcases List.mem_append.1 hd with hd | hd
    · exact List.mem_append_left _ (List.mem_map_of_mem hd)
    · obtain ⟨r, hr, rfl⟩ := List.mem_map.1 hd
      exact List.mem_append_right _ hr
  rw [hstored, List.append_assoc] at hmem
  refine ⟨before, hasks, ?_⟩
  rcases List.mem_append.1 hmem with hstood | hnew
  · obtain ⟨hold, hkept⟩ := List.mem_filter.1 hstood
    obtain ⟨behind, rfl, -⟩ := hasks
    left
    refine ⟨⟨d.row, mem_declarations.2 ⟨hold, hartifact⟩, hbinding⟩, fun hclear => ?_⟩
    rw [← hartifact] at hclear
    exact of_decide_eq_true hkept (List.mem_append_left _ hclear)
  · obtain ⟨earlier, hearlier⟩ := hfront d.row hnew
    exact .inr ⟨earlier, d.row, hearlier, hartifact, hbinding⟩

theorem flush_error (h : Accepted s calls tx) {fault : Fault}
    (hflush : tx.flushDeclarations = (.error fault, tx')) :
    ∃ row, fault = row.clash ∧ s.Repeats calls row := by
  unfold Transaction.flushDeclarations at hflush
  cases hbatch : tx.tables.insertDeclarations tx.base.key tx.heldDeclarations with
  | mk outcome tables =>
    rw [hbatch] at hflush
    obtain ⟨rfl, -⟩ := Prod.mk.inj hflush
    obtain ⟨ahead, row, lost, hheld, hahead, hdeclared, hfault⟩ :=
      Tables.insertDeclarations_error tx.base.key hbatch
    exact ⟨row, hfault, h.repeats hheld hahead hdeclared⟩

/-- A declaration fails with the batch that it fills, or because of what was announced. -/
theorem declare_error (h : Accepted s calls tx) {fault : Fault}
    (hdeclare : tx.declare row = (.error fault, tx')) :
    (∃ r, fault = r.clash ∧ s.Repeats (calls ++ [.insertDeclaration row]) r) ∨
      fault = row.clash ∧ ∃ other, Announces calls other ∧ other.binding = row.binding := by
  by_cases hmem : row.binding ∈ tx.declared
  · rw [Transaction.declare, if_pos hmem] at hdeclare
    exact .inr ⟨(Except.error.inj (Prod.mk.inj hdeclare).1).symm, (h.declared _).1 hmem⟩
  · rw [Transaction.declare, if_neg hmem] at hdeclare
    simp only at hdeclare
    split at hdeclare
    case isTrue => exact .inl ((h.hold row).flush_error hdeclare)
    case isFalse => simp at hdeclare

end Accepted

theorem isDeclared_perform (key : Binding → Int64) {t : Tables}
    (h : isDeclared t.declarations row = true) (hcall : call ≠ .clearArtifact row.artifact) :
    isDeclared (t.perform key call).declarations row = true := by
  cases call with
  | clearArtifact artifact =>
    have hne : row.artifact ≠ artifact := fun he => hcall (congrArg _ he.symm)
    exact (isDeclared_filter hne t.declarations).trans h
  | insertDeclaration r =>
    rw [Tables.perform_declaration, addFresh]
    split
    · exact h
    · rw [isDeclared, List.any_append, Bool.or_eq_true]
      exact .inl h
  | _ =>
    unfold Tables.perform
    split <;> exact h

theorem isDeclared_performAll (key : Binding → Int64) {t : Tables}
    (h : isDeclared t.declarations row = true) (hclear : .clearArtifact row.artifact ∉ calls) :
    isDeclared (t.performAll key calls).declarations row = true := by
  induction calls generalizing t with
  | nil => exact h
  | cons call rest ih =>
    rw [List.mem_cons, not_or] at hclear
    exact ih (isDeclared_perform key h (Ne.symm hclear.1)) hclear.2

theorem isDeclared_added (key : Binding → Int64) (t : Tables) (row : DeclarationRow) :
    isDeclared (t.perform key (.insertDeclaration row)).declarations row = true := by
  rw [Tables.perform_declaration, addFresh]
  split
  case isTrue h => exact h
  case isFalse => simp [isDeclared]

theorem Declares.isDeclared (h : s.Declares calls row.artifact row.binding) :
    isDeclared (s.tables.performAll s.key calls).declarations row = true := by
  rcases h with ⟨⟨r, hr, hbinding⟩, hclear⟩ | ⟨before, r, ⟨behind, rfl, hclear⟩, hartifact, hbinding⟩
  · obtain ⟨hr, hartifact⟩ := mem_declarations.1 hr
    obtain ⟨d, hd, rfl⟩ := List.mem_map.1 hr
    refine isDeclared_performAll s.key (List.any_eq_true.2 ⟨d, hd, ?_⟩) hclear
    exact decide_eq_true ⟨hartifact, hbinding⟩
  · have hsame : ∀ ds, Store.isDeclared ds row = Store.isDeclared ds r := by
      intro ds
      simp only [Store.isDeclared, hartifact, hbinding]
    rw [Tables.performAll, List.foldl_append, List.foldl_cons, hsame]
    exact isDeclared_performAll s.key (isDeclared_added s.key _ r) hclear

/-- No commit goes through that would store a row beside the one it repeats. -/
theorem Repeats.not_committed {tx : Transaction} (h : s.Repeats calls row)
    (hrun : provider.applyAll calls (.start s) = (.ok (), tx)) (s' : Store) :
    tx.commit ≠ (.ok (), s') := by
  intro hcommit
  obtain ⟨before, ⟨behind, rfl, hclear⟩, hdeclares⟩ := h
  obtain ⟨tx₁, hbefore, hrest⟩ := provider.ok_of_applyAll_append hrun
  obtain ⟨tx₂, happly, hbehind⟩ := provider.ok_of_applyAll_cons hrest
  have hstart : (Transaction.start s).caughtUp = s.tables := by
    simp [Transaction.start, Transaction.caughtUp]
  obtain ⟨-, hcaught⟩ := Transaction.applyAll_performs hbefore
  rw [hstart] at hcaught
  have hrefused : tx₁.caughtUp.refusal? (.insertDeclaration row) = some row.clash := by
    rw [hcaught, Tables.refusal?]
    exact if_pos hdeclares.isDeclared
  have hcall : tx₁.apply (.insertDeclaration row) = (.ok (), tx₂) := happly
  obtain ⟨r, hr, hstuck⟩ := (Transaction.apply_performs hcall).refused _ hrefused
  obtain rfl := Call.insertDeclaration.inj hr
  exact hclear (Transaction.clear_of_stuck hbehind hcommit hstuck)

theorem Transaction.declaration_of_apply_error {tx tx' : Transaction}
    {artifact binding path : String}
    (h : tx.apply call = (.error (.duplicateDeclaration artifact binding path), tx')) :
    ∃ row, call = .insertDeclaration row ∧
      tx.declare row = (.error (.duplicateDeclaration artifact binding path), tx') := by
  cases call with
  | insertDeclaration row => exact ⟨row, rfl, h⟩
  | insertArtifact name version =>
    simp only [apply, Tables.insertArtifact] at h
    split at h <;> simp [Transaction.store] at h
  | insertFile name row =>
    simp only [apply, Tables.insertFile] at h
    split at h <;> simp [Transaction.store] at h
  | _ => simp [apply, Transaction.store] at h

/-- In a transaction whose calls have succeeded so far, a commit reports only rows that their own
artifact has declared already, and so does a call where it fills a batch; such rows cannot be
committed. A call that is refused at once is so because some artifact has declared the binding since
the last removal, and then it always is: that need not be the artifact that is reported. -/
theorem duplicate_reported {s : Store} {calls : List Call} {tx : Transaction}
    (hrun : provider.applyAll calls (.start s) = (.ok (), tx)) :
    (∀ call artifact binding path tx',
      tx.apply call = (.error (.duplicateDeclaration artifact binding path), tx') →
        ∃ row, row.clash = .duplicateDeclaration artifact binding path ∧
          (s.Repeats (calls ++ [call]) row ∨ call = .insertDeclaration row ∧
            ∃ other, Announces calls other ∧ other.binding = row.binding ∧
              other.artifact ≠ row.artifact)) ∧
    (∀ row other, Announces calls other → other.binding = row.binding →
      tx.apply (.insertDeclaration row) = (.error row.clash, tx)) ∧
    (∀ artifact binding path s',
      tx.commit = (.error (.duplicateDeclaration artifact binding path), s') →
        ∃ row, row.clash = .duplicateDeclaration artifact binding path ∧ s.Repeats calls row) ∧
    ∀ row, s.Repeats calls row → ∀ s', tx.commit ≠ (.ok (), s') := by
  have haccepted : Accepted s calls tx := (Accepted.start s).applyAll hrun
  refine ⟨?_, ?_, ?_, fun row hrepeats => hrepeats.not_committed hrun⟩
  · intro call artifact binding path tx' hfault
    obtain ⟨row, rfl, hdeclare⟩ := Transaction.declaration_of_apply_error hfault
    rcases haccepted.declare_error hdeclare with
      ⟨r, hclash, hrepeats⟩ | ⟨hclash, other, hannounces, hbinding⟩
    · exact ⟨r, hclash.symm, .inl hrepeats⟩
    refine ⟨row, hclash.symm, ?_⟩
    by_cases hartifact : other.artifact = row.artifact
    · obtain ⟨before, hasks⟩ := hannounces.asks
      exact .inl ⟨calls, asks_last calls row, .inr ⟨before, other, hasks, hartifact, hbinding⟩⟩
    · exact .inr ⟨rfl, other, hannounces, hbinding, hartifact⟩
  · intro row other hannounces hbinding
    have hmem : row.binding ∈ tx.declared :=
      (haccepted.declared _).2 ⟨other, hannounces, hbinding⟩
    exact if_pos hmem
  · intro artifact binding path s' hcommit
    unfold Transaction.commit at hcommit
    split at hcommit
    case h_1 fault tx' hflush =>
      obtain ⟨row, hclash, hrepeats⟩ := haccepted.flush_error hflush
      have hfault : fault = .duplicateDeclaration artifact binding path :=
        Except.error.inj (Prod.mk.inj hcommit).1
      exact ⟨row, hclash.symm.trans hfault, hrepeats⟩
    case h_2 => simp at hcommit

/-- A row that is put off behind the removal of another artifact, and then made again. -/
theorem duplicate_reported_late :
    let row (path : String) : DeclarationRow := ⟨"a", ⟨"X"⟩, path, true⟩
    let s : Store := { key := fun _ => 0, batchSize := 2 }
    let calls : List Call := [.insertDeclaration (row "f"), .clearArtifact "b"]
    ∃ tx tx', provider.applyAll calls (.start s) = (.ok (), tx) ∧
      tx.apply (.insertDeclaration (row "g")) =
        (.error (.duplicateDeclaration "a" "X" "g"), tx') ∧
      ∃ r, r.clash = .duplicateDeclaration "a" "X" "g" ∧
        (s.Repeats (calls ++ [.insertDeclaration (row "g")]) r ∨
          Call.insertDeclaration (row "g") = .insertDeclaration r ∧
          ∃ other, Announces calls other ∧ other.binding = r.binding ∧
            other.artifact ≠ r.artifact) := by
  intro row s calls
  have hfault : ((s.attempt calls).apply (.insertDeclaration (row "g"))).1 =
      .error (.duplicateDeclaration "a" "X" "g") := by decide +kernel
  have hrun : provider.applyAll calls (.start s) = (.ok (), s.attempt calls) := rfl
  generalize hcall : (s.attempt calls).apply (.insertDeclaration (row "g")) = result at hfault
  obtain ⟨outcome, tx'⟩ := result
  obtain rfl : outcome = .error (.duplicateDeclaration "a" "X" "g") := hfault
  exact ⟨_, tx', hrun, hcall, (duplicate_reported hrun).1 _ _ _ _ _ hcall⟩

/-- An artifact is reported to declare a binding twice that it has not declared at all: another one
has. -/
theorem foreign_declaration_refused :
    let row (artifact path : String) : DeclarationRow := ⟨artifact, ⟨"X"⟩, path, true⟩
    let s : Store := {}
    let calls : List Call := [.insertDeclaration (row "lib" "A.java")]
    ∃ tx, provider.applyAll calls (.start s) = (.ok (), tx) ∧
      tx.apply (.insertDeclaration (row "other" "B.java")) =
        (.error (.duplicateDeclaration "other" "X" "B.java"), tx) ∧
      ¬ s.Declares calls "other" ⟨"X"⟩ := by
  intro row s calls
  refine ⟨s.attempt calls, rfl, rfl, ?_⟩
  rintro (⟨⟨r, hr, -⟩, -⟩ | ⟨before, r, ⟨behind, hcalls, -⟩, hartifact, -⟩)
  · obtain ⟨hr, -⟩ := mem_declarations.1 hr
    simp [s] at hr
  · have hmem : Call.insertDeclaration r ∈ calls := by
      rw [hcalls]
      exact List.mem_append_right _ List.mem_cons_self
    obtain rfl : r = row "lib" "A.java" := by simpa [calls] using hmem
    exact absurd hartifact (by decide)

end CrossRef.Store
