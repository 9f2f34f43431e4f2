import CrossRef.Proofs.Feed.Conclusion
import CrossRef.Store.Transaction

namespace CrossRef

/-- The artifact that a call is about. -/
def Feed.Call.artifact : Feed.Call → String
  | .clearArtifact artifact => artifact
  | .insertArtifact artifact _ => artifact
  | .insertDependency artifact _ => artifact
  | .insertAlias artifact _ => artifact
  | .insertFile artifact _ => artifact
  | .insertDeclaration row => row.artifact
  | .insertReference row => row.artifact

namespace Store

variable (key : Binding → Int64)

namespace Tables

/-- The tables behind a call that is carried out. -/
def extend (t : Tables) : Feed.Call → Tables
  | .clearArtifact artifact => t.clear artifact
  | .insertArtifact artifact version => { t with artifacts := t.artifacts ++ [(artifact, version)] }
  | .insertDependency artifact target => t.insertDependency artifact target
  | .insertAlias artifact name => t.insertAlias artifact name
  | .insertFile artifact row => { t with files := t.files ++ [(artifact, row)] }
  | .insertDeclaration row =>
    { t with declarations := t.declarations ++ [⟨key row.binding, row⟩] }
  | .insertReference row => t.insertReferences key [row]

/-- The fault of a call that the tables refuse. -/
def refusal? (t : Tables) : Feed.Call → Option Fault
  | .insertArtifact artifact _ =>
    if t.artifacts.any fun (id, _) => id = artifact then
      some (.queryFailed "failed to insert artifact: UNIQUE constraint failed: artifacts.id")
    else none
  | .insertFile artifact row =>
    if t.files.any fun (id, old) => id = artifact ∧ old.path = row.path then
      some (.queryFailed ("failed to insert source file: " ++
        "UNIQUE constraint failed: sourceFiles.artifactId, sourceFiles.path"))
    else none
  | .insertDeclaration row =>
    if t.declarations.any fun d => d.row.artifact = row.artifact ∧ d.row.binding = row.binding then
      some (.duplicateDeclaration row.artifact row.binding.text row.file)
    else none
  | _ => none

/-- Carries out calls one by one, up to the first that is refused. -/
def extendAll? (t : Tables) : List Feed.Call → Except Fault Tables
  | [] => .ok t
  | call :: rest =>
    match t.refusal? call with
    | some fault => .error fault
    | none => (t.extend key call).extendAll? rest

theorem insertArtifact_eq (t : Tables) (artifact : String) (version : Int64) :
    t.insertArtifact artifact version =
      match t.refusal? (.insertArtifact artifact version) with
      | some fault => .error fault
      | none => .ok (t.extend key (.insertArtifact artifact version)) := by
  simp only [insertArtifact, refusal?]
  split <;> rfl

theorem insertFile_eq (t : Tables) (artifact : String) (row : SourceRow) :
    t.insertFile artifact row =
      match t.refusal? (.insertFile artifact row) with
      | some fault => .error fault
      | none => .ok (t.extend key (.insertFile artifact row)) := by
  simp only [insertFile, refusal?]
  split <;> rfl

/-- The tables with rows added that are still held back. -/
def withHeld (t : Tables) (declarations : List DeclarationRow) (references : List ReferenceRow) :
    Tables :=
  { t with
    declarations := t.declarations ++ declarations.map fun row => ⟨key row.binding, row⟩
    references := t.references ++ references.map fun row => ⟨key row.target, row⟩ }

theorem insertDeclarations_of_fresh (artifact : String) (rows : List DeclarationRow) (t : Tables)
    (ha : ∀ row ∈ rows, row.artifact = artifact) (hd : (rows.map DeclarationRow.binding).Nodup)
    (hnew : ∀ row ∈ rows, ∀ d ∈ t.declarations, d.row.artifact = artifact →
      d.row.binding ≠ row.binding) :
    t.insertDeclarations key rows = (.ok (), t.withHeld key rows []) := by
  induction rows generalizing t with
  | nil => simp [insertDeclarations, withHeld]
  | cons row rows ih =>
    have hrow : row.artifact = artifact := ha row List.mem_cons_self
    obtain ⟨hnotin, hd⟩ := List.nodup_cons.1 hd
    have hfree : (t.declarations.any fun d => d.row.artifact = row.artifact ∧
        d.row.binding = row.binding) = false := by
      apply List.any_eq_false.2
      intro d hmem
      have hne := hnew row List.mem_cons_self d hmem
      rw [hrow]
      simpa using hne
    rw [insertDeclarations, insertDeclaration, hfree, if_neg Bool.false_ne_true]
    simp only
    rw [ih _ (fun r hr => ha r (List.mem_cons_of_mem _ hr)) hd fun r hr d hmem => ?_]
    · simp [withHeld]
    · rcases List.mem_append.1 hmem with hmem | hmem
      · exact hnew r (List.mem_cons_of_mem _ hr) d hmem
      · obtain rfl := List.mem_singleton.1 hmem
        intro _ hb
        exact hnotin (hb ▸ List.mem_map_of_mem hr)

end Tables

namespace Transaction

/-- The tables as if nothing were held back. -/
def full (tx : Transaction) : Tables :=
  tx.tables.withHeld tx.base.key tx.heldDeclarations tx.heldReferences

/-- What is declared is what the transaction has declared of its artifact, stored or held back, and
no binding of it is declared twice. -/
structure Covers (artifact : String) (tx : Transaction) : Prop where
  owned : ∀ row ∈ tx.heldDeclarations, row.artifact = artifact
  declared : ∀ b, b ∈ tx.declared ↔
    ∃ d ∈ tx.full.declarations, d.row.artifact = artifact ∧ d.row.binding = b
  distinct : (tx.heldDeclarations.map DeclarationRow.binding).Nodup
  unstored : ∀ row ∈ tx.heldDeclarations, ∀ d ∈ tx.tables.declarations,
    d.row.artifact = artifact → d.row.binding ≠ row.binding

variable {artifact : String} {tx : Transaction}

/-- Storing the declarations held back never fails. -/
theorem flushDeclarations_of_covers (h : tx.Covers artifact) :
    tx.flushDeclarations = (.ok (), { tx with
      tables := tx.tables.withHeld tx.base.key tx.heldDeclarations []
      heldDeclarations := [] }) := by
  unfold flushDeclarations
  rw [Tables.insertDeclarations_of_fresh tx.base.key artifact _ _ h.owned h.distinct h.unstored]

theorem full_flushDeclarations (tx : Transaction) :
    ({ tx with
      tables := tx.tables.withHeld tx.base.key tx.heldDeclarations []
      heldDeclarations := [] } : Transaction).full = tx.full := by
  simp [full, Tables.withHeld]

theorem full_flushReferences (tx : Transaction) : tx.flushReferences.full = tx.full := by
  simp [full, flushReferences, Tables.withHeld, Tables.insertReferences]

/-- The commit keeps all that was declared and referred to. -/
theorem commit_of_covers (h : tx.Covers artifact) :
    tx.commit = (.ok (), { tx.base with tables := tx.full }) := by
  simp only [commit, flushDeclarations_of_covers h]
  simp [flushReferences, Tables.insertReferences, full, Tables.withHeld]

theorem clear_covers (howned : ∀ row ∈ tx.heldDeclarations, row.artifact = artifact) :
    (tx.clear artifact).Covers artifact ∧ (tx.clear artifact).full = tx.full.clear artifact := by
  have hheld : (tx.clear artifact).heldDeclarations = [] := by
    apply List.filter_eq_nil_iff.2
    intro row hrow
    simpa using howned row hrow
  have hfull : (tx.clear artifact).full = tx.full.clear artifact := by
    simp [full, clear, Tables.withHeld, Tables.clear, List.filter_map, Function.comp_def]
  have hdeclared : ∀ b, b ∈ (tx.clear artifact).declared ↔
      ∃ d ∈ (tx.clear artifact).full.declarations, d.row.artifact = artifact ∧
        d.row.binding = b := by
    intro b
    rw [hfull]
    constructor
    · intro hb
      simp [clear] at hb
    · rintro ⟨d, hd, hartifact, -⟩
      have hne := (List.mem_filter.1 hd).2
      simp [hartifact] at hne
  exact ⟨⟨by simp [hheld], hdeclared, by simp [hheld], by simp [hheld]⟩, hfull⟩

theorem Covers.congr {tx' : Transaction} (h : tx.Covers artifact) (hbase : tx'.base = tx.base)
    (hdeclared : tx'.declared = tx.declared)
    (hheld : tx'.heldDeclarations = tx.heldDeclarations)
    (htables : tx'.tables.declarations = tx.tables.declarations) : tx'.Covers artifact := by
  have hfull : tx'.full.declarations = tx.full.declarations := by
    simp [full, Tables.withHeld, hbase, hheld, htables]
  constructor
  · rw [hheld]
    exact h.owned
  · intro b
    rw [hdeclared, hfull]
    exact h.declared b
  · rw [hheld]
    exact h.distinct
  · rw [hheld, htables]
    exact h.unstored

theorem flush_covers (h : tx.Covers artifact) :
    ({ tx with
      tables := tx.tables.withHeld tx.base.key tx.heldDeclarations []
      heldDeclarations := [] } : Transaction).Covers artifact := by
  constructor
  · simp
  · intro b
    rw [full_flushDeclarations]
    exact h.declared b
  · simp
  · simp

theorem refusal?_declaration (h : tx.Covers artifact) (row : DeclarationRow)
    (hrow : row.artifact = artifact) :
    tx.full.refusal? (.insertDeclaration row) =
      if row.binding ∈ tx.declared then
        some (.duplicateDeclaration row.artifact row.binding.text row.file)
      else none := by
  have hiff : (tx.full.declarations.any fun d => d.row.artifact = row.artifact ∧
      d.row.binding = row.binding) = true ↔ row.binding ∈ tx.declared := by
    rw [h.declared, List.any_eq_true, hrow]
    simp
  simp only [Tables.refusal?, hiff]

theorem hold_covers (h : tx.Covers artifact) (row : DeclarationRow) (hrow : row.artifact = artifact)
    (hnew : row.binding ∉ tx.declared) :
    ({ tx with
      declared := row.binding :: tx.declared
      heldDeclarations := tx.heldDeclarations ++ [row] } : Transaction).Covers artifact := by
  have hfresh : ∀ d ∈ tx.full.declarations, d.row.artifact = artifact →
      d.row.binding ≠ row.binding := by
    intro d hd ha hb
    exact hnew ((h.declared _).2 ⟨d, hd, ha, hb⟩)
  constructor
  · intro r hr
    rcases List.mem_append.1 hr with hr | hr
    · exact h.owned r hr
    · rw [List.mem_singleton.1 hr]
      exact hrow
  · intro b
    have hfull := h.declared b
    simp only [full, Tables.withHeld, List.mem_append] at hfull
    simp only [full, Tables.withHeld, List.mem_cons, List.map_append, List.map_cons, List.map_nil,
      List.mem_append, List.not_mem_nil, or_false]
    constructor
    · rintro (rfl | hb)
      · exact ⟨_, .inr (.inr rfl), hrow, rfl⟩
      · obtain ⟨d, hd | hd, hmatch⟩ := hfull.1 hb
        · exact ⟨d, .inl hd, hmatch⟩
        · exact ⟨d, .inr (.inl hd), hmatch⟩
    · rintro ⟨d, hd | hd | rfl, ha, hb⟩
      · exact .inr (hfull.2 ⟨d, .inl hd, ha, hb⟩)
      · exact .inr (hfull.2 ⟨d, .inr hd, ha, hb⟩)
      · exact .inl hb.symm
  · have hapart : ∀ b ∈ tx.heldDeclarations.map DeclarationRow.binding, ∀ c ∈ [row.binding],
        b ≠ c := by
      intro b hb c hc
      obtain ⟨r, hr, rfl⟩ := List.mem_map.1 hb
      rw [List.mem_singleton.1 hc]
      refine hfresh ⟨tx.base.key r.binding, r⟩ ?_ (h.owned r hr)
      exact List.mem_append_right _ (List.mem_map_of_mem hr)
    rw [List.map_append, List.map_cons, List.map_nil]
    exact List.nodup_append.2 ⟨h.distinct, by simp, hapart⟩
  · intro r hr d hd ha
    rcases List.mem_append.1 hr with hr | hr
    · exact h.unstored r hr d hd ha
    · rw [List.mem_singleton.1 hr]
      exact hfresh d (List.mem_append_left _ hd) ha

/-- What is carried out is seen as if nothing were held back, and the transaction still covers its
artifact. -/
structure Extends (artifact : String) (tx tx' : Transaction) (call : Feed.Call) : Prop where
  base : tx'.base = tx.base
  full : tx'.full = tx.full.extend tx.base.key call
  covers : tx'.Covers artifact

theorem declare_of_covers (h : tx.Covers artifact) (row : DeclarationRow)
    (hrow : row.artifact = artifact) (hnew : row.binding ∉ tx.declared) :
    ∃ tx', tx.declare row = (.ok (), tx') ∧ Extends artifact tx tx' (.insertDeclaration row) := by
  let next : Transaction := { tx with
    declared := row.binding :: tx.declared
    heldDeclarations := tx.heldDeclarations ++ [row] }
  have hcovers : next.Covers artifact := hold_covers h row hrow hnew
  have hfull : next.full = tx.full.extend tx.base.key (.insertDeclaration row) := by
    simp [next, full, Tables.withHeld, Tables.extend]
  rw [declare, if_neg hnew]
  simp only
  split
  · rw [flushDeclarations_of_covers hcovers]
    exact ⟨_, rfl, rfl, (full_flushDeclarations next).trans hfull, flush_covers hcovers⟩
  · exact ⟨next, rfl, rfl, hfull, hcovers⟩

/-- What is declared says whether a declaration is refused; no batch has a say in it. -/
theorem declare_fst (h : tx.Covers artifact) (row : DeclarationRow) (hrow : row.artifact = artifact) :
    (tx.declare row).1 =
      if row.binding ∈ tx.declared then
        .error (.duplicateDeclaration row.artifact row.binding.text row.file)
      else .ok () := by
  by_cases hmem : row.binding ∈ tx.declared
  · simp only [declare, if_pos hmem]
  · obtain ⟨tx', happly, -⟩ := declare_of_covers h row hrow hmem
    rw [happly, if_neg hmem]

theorem refer_of_covers (h : tx.Covers artifact) (row : ReferenceRow) :
    Extends artifact tx (tx.refer row) (.insertReference row) := by
  have hfull : ({ tx with heldReferences := tx.heldReferences ++ [row] } : Transaction).full =
      tx.full.extend tx.base.key (.insertReference row) := by
    simp [full, Tables.withHeld, Tables.extend, Tables.insertReferences]
  unfold refer
  simp only
  split
  · exact ⟨rfl, (full_flushReferences _).trans hfull, h.congr rfl rfl rfl rfl⟩
  · exact ⟨rfl, hfull, h.congr rfl rfl rfl rfl⟩

/-- A statement on the tables, which sees nothing of what is held back. -/
theorem store_of_covers (h : tx.Covers artifact) (call : Feed.Call) (result : Except Fault Tables)
    (hresult : result = match tx.full.refusal? call with
      | some fault => .error fault
      | none => .ok (tx.tables.extend tx.base.key call))
    (hfull : (tx.tables.extend tx.base.key call).withHeld tx.base.key tx.heldDeclarations
      tx.heldReferences = tx.full.extend tx.base.key call)
    (hkept : (tx.tables.extend tx.base.key call).declarations = tx.tables.declarations) :
    (∃ fault, tx.full.refusal? call = some fault ∧ tx.store result = (.error fault, tx)) ∨
      tx.full.refusal? call = none ∧
        ∃ tx', tx.store result = (.ok (), tx') ∧ Extends artifact tx tx' call := by
  cases hrefusal : tx.full.refusal? call with
  | some fault =>
    rw [hrefusal] at hresult
    exact .inl ⟨fault, rfl, by rw [hresult]; rfl⟩
  | none =>
    rw [hrefusal] at hresult
    exact .inr ⟨rfl, { tx with tables := tx.tables.extend tx.base.key call }, by rw [hresult]; rfl,
      rfl, hfull, h.congr rfl rfl rfl hkept⟩

/-- What one call does, whether or not its row is held back. -/
theorem apply_of_covers (h : tx.Covers artifact) (call : Feed.Call) (hc : call.artifact = artifact) :
    (∃ fault, tx.full.refusal? call = some fault ∧ tx.apply call = (.error fault, tx)) ∨
      tx.full.refusal? call = none ∧
        ∃ tx', tx.apply call = (.ok (), tx') ∧ Extends artifact tx tx' call := by
  cases call with
  | clearArtifact a =>
    obtain rfl : a = artifact := hc
    obtain ⟨hcovers, hfull⟩ := clear_covers h.owned
    exact .inr ⟨rfl, _, rfl, rfl, hfull, hcovers⟩
  | insertArtifact a version =>
    refine store_of_covers h (.insertArtifact a version) _ ?_ rfl rfl
    exact Tables.insertArtifact_eq tx.base.key tx.tables _ _
  | insertDependency a target => exact .inr ⟨rfl, _, rfl, rfl, rfl, h.congr rfl rfl rfl rfl⟩
  | insertAlias a name => exact .inr ⟨rfl, _, rfl, rfl, rfl, h.congr rfl rfl rfl rfl⟩
  | insertFile a row =>
    refine store_of_covers h (.insertFile a row) _ ?_ rfl rfl
    exact Tables.insertFile_eq tx.base.key tx.tables _ _
  | insertDeclaration row =>
    rw [refusal?_declaration h row hc]
    by_cases hmem : row.binding ∈ tx.declared
    · left
      simp only [apply, declare, if_pos hmem]
      exact ⟨_, rfl, rfl⟩
    · right
      rw [if_neg hmem]
      exact ⟨rfl, declare_of_covers h row hc hmem⟩
  | insertReference row => exact .inr ⟨rfl, _, rfl, refer_of_covers h row⟩

theorem applyAll_of_covers (calls : List Feed.Call) (tx : Transaction) (h : tx.Covers artifact)
    (hc : ∀ call ∈ calls, call.artifact = artifact) :
    match tx.full.extendAll? tx.base.key calls with
    | .error fault => ∃ tx', provider.applyAll calls tx = (.error fault, tx') ∧ tx'.base = tx.base ∧
        tx'.Covers artifact
    | .ok tables => ∃ tx', provider.applyAll calls tx = (.ok (), tx') ∧ tx'.base = tx.base ∧
        tx'.full = tables ∧ tx'.Covers artifact := by
  induction calls generalizing tx with
  | nil => exact ⟨tx, rfl, rfl, rfl, h⟩
  | cons call rest ih =>
    rw [Tables.extendAll?]
    rcases apply_of_covers h call (hc call List.mem_cons_self) with
      ⟨fault, hrefused, hfault⟩ | ⟨hfree, tx', happly, hnext⟩
    · rw [hrefused]
      have hcall : provider.apply call tx = (.error fault, tx) := hfault
      exact ⟨tx, provider.applyAll_of_error hcall rest, rfl, h⟩
    · have hcall : provider.apply call tx = (.ok (), tx') := happly
      have hrest := ih tx' hnext.covers fun c hmem => hc c (List.mem_cons_of_mem _ hmem)
      rw [hfree, provider.applyAll_of_ok hcall]
      rw [hnext.full, hnext.base] at hrest
      exact hrest

theorem base_refer (row : ReferenceRow) (tx : Transaction) : (tx.refer row).base = tx.base := by
  unfold refer
  simp only
  split <;> rfl

theorem base_declare (row : DeclarationRow) (tx : Transaction) :
    (tx.declare row).2.base = tx.base := by
  unfold declare
  split
  · rfl
  · simp only
    split <;> rfl

theorem base_store (result : Except Fault Tables) (tx : Transaction) :
    (tx.store result).2.base = tx.base := by
  cases result <;> rfl

theorem base_apply (call : Feed.Call) (tx : Transaction) : (tx.apply call).2.base = tx.base := by
  cases call with
  | clearArtifact artifact => rfl
  | insertDeclaration row => exact base_declare row tx
  | insertReference row => exact base_refer row tx
  | insertArtifact artifact version => exact base_store _ tx
  | insertDependency artifact target => exact base_store _ tx
  | insertAlias artifact name => exact base_store _ tx
  | insertFile artifact row => exact base_store _ tx

theorem base_applyAll (calls : List Feed.Call) (tx : Transaction) :
    (provider.applyAll calls tx).2.base = tx.base := by
  induction calls generalizing tx with
  | nil => rfl
  | cons call rest ih =>
    have hbase := base_apply call tx
    cases hc : provider.apply call tx with
    | mk outcome next =>
      rw [show tx.apply call = (outcome, next) from hc] at hbase
      cases outcome with
      | error fault =>
        rw [provider.applyAll_of_error hc]
        exact hbase
      | ok u =>
        rw [provider.applyAll_of_ok hc, ih next]
        exact hbase

end Transaction

/-- The tables where the rows of an artifact have made room for its new ones. -/
def Tables.renew (artifact : String) (version : Int64) (t : Tables) : Tables :=
  (t.clear artifact).extend key (.insertArtifact artifact version)

theorem apply_opening (s : Store) (artifact : String) (version : Int64) :
    ∃ tx, provider.applyAll [.clearArtifact artifact, .insertArtifact artifact version] (.start s) =
        (.ok (), tx) ∧ tx.base = s ∧ tx.full = s.tables.renew s.key artifact version ∧
      tx.Covers artifact := by
  have hempty : ∀ row ∈ (Transaction.start s).heldDeclarations, row.artifact = artifact := by
    simp [Transaction.start]
  obtain ⟨hcovers, hfull⟩ := Transaction.clear_covers hempty
  have hstart : (Transaction.start s).full = s.tables := by
    simp [Transaction.start, Transaction.full, Tables.withHeld]
  rw [hstart] at hfull
  have hfree : ((Transaction.start s).clear artifact).full.refusal?
      (.insertArtifact artifact version) = none := by
    rw [hfull]
    simp [Tables.refusal?, Tables.clear]
  rcases Transaction.apply_of_covers hcovers (.insertArtifact artifact version) rfl with
    ⟨fault, hrefused, -⟩ | ⟨-, tx, happly, hnext⟩
  · rw [hfree] at hrefused
    simp at hrefused
  · refine ⟨tx, ?_, hnext.base, ?_, hnext.covers⟩
    · have hclear : provider.apply (.clearArtifact artifact) (.start s) =
          (.ok (), (Transaction.start s).clear artifact) := rfl
      have hinsert : provider.apply (.insertArtifact artifact version)
          ((Transaction.start s).clear artifact) = (.ok (), tx) := happly
      rw [provider.applyAll_of_ok hclear, provider.applyAll_of_ok hinsert]
      rfl
    · rw [hnext.full, hfull]
      rfl

/-- From the clearing on a transaction covers its artifact, also where a call was refused. -/
theorem covers_take (s : Store) (artifact : String) (version : Int64) (calls : List Feed.Call) (n : Nat)
    (hc : ∀ call ∈ calls, call.artifact = artifact) :
    (provider.applyAll ((.clearArtifact artifact :: .insertArtifact artifact version :: calls).take
      (n + 1)) (.start s)).2.Covers artifact := by
  cases n with
  | zero =>
    have hempty : ∀ row ∈ (Transaction.start s).heldDeclarations, row.artifact = artifact := by
      simp [Transaction.start]
    exact (Transaction.clear_covers hempty).1
  | succ n =>
    obtain ⟨tx, hopening, -, -, hcovers⟩ := apply_opening s artifact version
    have hrun := Transaction.applyAll_of_covers (calls.take n) tx hcovers
      fun call hcall => hc call (List.mem_of_mem_take hcall)
    rw [List.take_succ_cons, List.take_succ_cons]
    change (provider.applyAll ([_, _] ++ calls.take n) (.start s)).2.Covers artifact
    rw [provider.applyAll_append_of_ok hopening]
    split at hrun
    · obtain ⟨tx', happly, -, hcovers'⟩ := hrun
      rw [happly]
      exact hcovers'
    · obtain ⟨tx', happly, -, -, hcovers'⟩ := hrun
      rw [happly]
      exact hcovers'

/-- A session leaves the store alone where the producer fails. -/
theorem session_of_error {α : Type} (s : Store) (artifact : String) (capacity : Nat)
    (calls : List Feed.Call) (fault : Fault) :
    ∃ fault', provider.session artifact capacity (⟨calls, .error fault⟩ : Feed.Production α) s =
      (.error fault', s) := by
  rw [provider.session_eq]
  have hbase := Transaction.base_applyAll calls (.start s)
  simp only [provider, Feed.Provider.conclude] at hbase ⊢
  split
  · exact ⟨_, by rw [Transaction.rollback, hbase]; rfl⟩
  · exact ⟨_, by rw [Transaction.rollback, hbase]; rfl⟩
  · simp_all

theorem session_of_calls {α : Type} (s : Store) (artifact : String) (capacity : Nat)
    (version : Int64) (calls : List Feed.Call) (hc : ∀ call ∈ calls, call.artifact = artifact)
    (result : Except Fault α) :
    provider.session artifact capacity
        ⟨.clearArtifact artifact :: .insertArtifact artifact version :: calls, result⟩ s =
      match (s.tables.renew s.key artifact version).extendAll? s.key calls, result with
      | .error fault, _ => (.error fault, s)
      | .ok _, .error fault => (.error fault, s)
      | .ok tables, .ok a => (.ok a, { s with tables := tables }) := by
  obtain ⟨tx, hopening, hbase, hfull, hcovers⟩ := apply_opening s artifact version
  have hrun := Transaction.applyAll_of_covers calls tx hcovers hc
  rw [hfull, hbase] at hrun
  rw [provider.session_eq]
  change provider.conclude (provider.applyAll ([_, _] ++ calls) (.start s)) result = _
  rw [provider.applyAll_append_of_ok hopening]
  cases hextend : (s.tables.renew s.key artifact version).extendAll? s.key calls with
  | error fault =>
    rw [hextend] at hrun
    obtain ⟨tx', happly, hbase', -⟩ := hrun
    rw [happly]
    simp [Feed.Provider.conclude, provider, Transaction.rollback, hbase']
  | ok tables =>
    rw [hextend] at hrun
    obtain ⟨tx', happly, hbase', htables, hcovers'⟩ := hrun
    rw [happly]
    cases result with
    | error fault => simp [Feed.Provider.conclude, provider, Transaction.rollback, hbase']
    | ok a =>
      simp [Feed.Provider.conclude, provider, Transaction.commit_of_covers hcovers', hbase', htables]

end Store

end CrossRef
