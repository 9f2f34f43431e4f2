import CrossRef.Proofs.Library.Tables
import CrossRef.Proofs.Store.Attempts

namespace CrossRef.Store

open Feed (Call)

/-- A transaction with the rows that it may hold back, its calls and how it ends. -/
structure Round where
  batchSize : Nat
  calls : List Call
  commits : Bool

namespace Round

/-- The calls that are kept, and the store behind them. -/
def run (round : Round) (s : Store) : List Call × Store :=
  let tx := attempt { s with batchSize := round.batchSize } round.calls
  if round.commits then
    match tx.commit with
    | (.ok (), s) => (round.calls, s)
    | (.error _, s) => ([], s)
  else ([], tx.rollback)

/-- All calls that are kept, and the store behind the last round. -/
def runAll : List Round → Store → List Call × Store
  | [], s => ([], s)
  | round :: rest, s =>
    let first := round.run s
    let others := runAll rest first.2
    (first.1 ++ others.1, others.2)

end Round

/-- The references that are asked for and not removed again. -/
def referred (calls : List Call) : List ReferenceRow :=
  calls.foldl (Call.revise Call.reference? ReferenceRow.artifact) []

/-- The declarations that are asked for and not removed again, accepted or not. -/
def submitted (calls : List Call) : List DeclarationRow :=
  calls.foldl (Call.revise Call.declaration? DeclarationRow.artifact) []

theorem foldl_revise_keyed (key : Binding → Int64) (calls : List Call) (rows : List ReferenceRow) :
    calls.foldl (Call.revise (Call.keyedReference? key) fun r => r.row.artifact)
        (rows.map fun row => ⟨key row.target, row⟩) =
      (calls.foldl (Call.revise Call.reference? ReferenceRow.artifact) rows).map
        fun row => ⟨key row.target, row⟩ := by
  induction calls generalizing rows with
  | nil => rfl
  | cons call rest ih =>
    rw [List.foldl_cons, List.foldl_cons, ← ih]
    congr 1
    cases call with
    | clearArtifact artifact => simp [Call.revise, List.filter_map, Function.comp_def]
    | insertReference row => simp [Call.revise, Call.keyedReference?, Call.reference?]
    | _ => simp [Call.revise, Call.keyedReference?, Call.reference?]

/-- Declarations that are stored, and rows that are held back, come from `rows` in their order. What
is stored has the number of its binding, and no artifact has a binding twice. -/
structure DrawnFrom (key : Binding → Int64) (rows : List DeclarationRow)
    (stored : List (Keyed DeclarationRow)) (held : List DeclarationRow) : Prop where
  keyed : ∀ d ∈ stored, d.key = key d.row.binding
  distinct : (stored.map fun d => (d.row.artifact, d.row.binding)).Nodup
  drawn : (stored.map Keyed.row ++ held).Sublist rows

namespace DrawnFrom

variable {key : Binding → Int64} {rows held : List DeclarationRow}
  {stored : List (Keyed DeclarationRow)}

theorem more (h : DrawnFrom key rows stored held) (new : List DeclarationRow) :
    DrawnFrom key (rows ++ new) stored held :=
  ⟨h.keyed, h.distinct, h.drawn.trans (List.sublist_append_left _ _)⟩

theorem hold (h : DrawnFrom key rows stored held) (row : DeclarationRow) :
    DrawnFrom key (rows ++ [row]) stored (held ++ [row]) := by
  refine ⟨h.keyed, h.distinct, ?_⟩
  rw [← List.append_assoc]
  exact h.drawn.append (List.Sublist.refl _)

theorem clear (h : DrawnFrom key rows stored held) (artifact : String) :
    DrawnFrom key (rows.filter fun row => row.artifact ≠ artifact)
      (stored.filter fun d => d.row.artifact ≠ artifact)
      (held.filter fun row => row.artifact ≠ artifact) := by
  refine ⟨fun d hd => h.keyed d (List.mem_filter.1 hd).1, ?_, ?_⟩
  · exact h.distinct.sublist (List.filter_sublist.map _)
  · have hfiltered := h.drawn.filter fun row => row.artifact ≠ artifact
    rwa [List.filter_append, List.filter_map] at hfiltered

/-- Rows that stand in front can be stored, and the rest is lost. -/
theorem store {ahead lost : List DeclarationRow} {t t' : Tables}
    (h : DrawnFrom key rows t.declarations (ahead ++ lost))
    (hstored : t.insertDeclarations key ahead = (.ok (), t')) :
    DrawnFrom key rows t'.declarations [] := by
  induction ahead generalizing t with
  | nil =>
    obtain rfl : t = t' := (Prod.mk.inj hstored).2
    refine ⟨h.keyed, h.distinct, ?_⟩
    rw [List.append_nil]
    exact (List.sublist_append_left _ _).trans h.drawn
  | cons row ahead ih =>
    rw [Tables.insertDeclarations_cons] at hstored
    split at hstored
    case isTrue => simp at hstored
    case isFalse hfresh =>
      refine ih ?_ hstored
      rw [Tables.perform_declaration, addFresh, if_neg hfresh]
      refine ⟨?_, ?_, ?_⟩
      · intro d hd
        rcases List.mem_append.1 hd with hd | hd
        · exact h.keyed d hd
        · rw [List.mem_singleton.1 hd]
      · simp only [isDeclared, List.any_eq_true, decide_eq_true_eq, not_exists, not_and] at hfresh
        rw [List.map_append, List.nodup_append]
        refine ⟨h.distinct, by simp, ?_⟩
        simpa using hfresh
      · simpa using h.drawn

theorem unique (h : DrawnFrom key rows stored held) {d e : DeclarationRow}
    (hd : d ∈ stored.map Keyed.row) (he : e ∈ stored.map Keyed.row)
    (hartifact : d.artifact = e.artifact) (hbinding : d.binding = e.binding) : d = e := by
  obtain ⟨x, hx, rfl⟩ := List.mem_map.1 hd
  obtain ⟨y, hy, rfl⟩ := List.mem_map.1 he
  rw [List.inj_on_of_nodup_map h.distinct hx hy (Prod.ext hartifact hbinding)]

end DrawnFrom

namespace Transaction

/-- A call that fails may lose rows, but it adds none and stores none twice. -/
theorem drawnFrom_apply {tx : Transaction} {rows : List DeclarationRow}
    (h : DrawnFrom tx.base.key rows tx.tables.declarations tx.heldDeclarations) (call : Call) :
    DrawnFrom tx.base.key (call.revise Call.declaration? DeclarationRow.artifact rows)
      (tx.apply call).2.tables.declarations (tx.apply call).2.heldDeclarations := by
  have hattempt := attempt_apply call tx
  generalize tx.apply call = result at hattempt
  cases hattempt with
  | cleared artifact => exact h.clear artifact
  | referred row =>
    have hnew := h.more []
    unfold refer
    simp only
    split <;> exact hnew
  | passed hclear hdeclaration _ hdeclarations =>
    rw [Call.revise_of_none _ _ hclear hdeclaration]
    simp only [hdeclarations]
    exact h
  | refused hclear =>
    rw [Call.revise_of_ne _ _ hclear]
    exact h.more _
  | held row => exact h.hold row
  | @stored row _ hstored =>
    have hbatch := h.hold row
    rw [← List.append_nil (tx.heldDeclarations ++ [row])] at hbatch
    exact hbatch.store hstored
  | @broken row _ _ _ _ hbreaks =>
    have hbatch := h.hold row
    rw [hbreaks.batch] at hbatch
    exact hbatch.store hbreaks.stored

theorem drawnFrom_attemptAll {tx : Transaction} {rows : List DeclarationRow}
    (h : DrawnFrom tx.base.key rows tx.tables.declarations tx.heldDeclarations)
    (calls : List Call) :
    DrawnFrom tx.base.key (calls.foldl (Call.revise Call.declaration? DeclarationRow.artifact) rows)
      (tx.attemptAll calls).tables.declarations (tx.attemptAll calls).heldDeclarations := by
  induction calls generalizing tx rows with
  | nil => exact h
  | cons call rest ih =>
    have hnext := drawnFrom_apply h call
    rw [← base_apply call tx] at hnext
    have hrest := ih hnext
    rw [base_apply] at hrest
    exact hrest

end Transaction

/-- A store behind calls: it has the references that are left of them, and declarations that were
submitted. -/
structure Behind (calls : List Call) (s : Store) : Prop where
  references : s.tables.references =
    (referred calls).map fun row => ⟨s.key row.target, row⟩
  declarations : DrawnFrom s.key (submitted calls) s.tables.declarations []

theorem Behind.commit {log calls : List Call} {s s' : Store} (h : s.Behind log)
    (hcommit : (s.attempt calls).commit = (.ok (), s')) : s'.Behind (log ++ calls) := by
  obtain ⟨hstored, rfl⟩ := Transaction.commit_full hcommit
  have hbase := s.base_attempt calls
  constructor
  · change (s.attempt calls).full.references = _
    rw [references_attempt, h.references, foldl_revise_keyed, referred, referred, List.foldl_append]
    simp only [hbase]
  · have hstart : DrawnFrom (Transaction.start s).base.key (submitted log)
        (Transaction.start s).tables.declarations (Transaction.start s).heldDeclarations :=
      h.declarations
    have hdrawn := Transaction.drawnFrom_attemptAll hstart calls
    rw [submitted, ← List.foldl_append, ← List.append_nil (Transaction.heldDeclarations _)]
      at hdrawn
    change DrawnFrom (s.attempt calls).base.key _ ((s.attempt calls).tables.withHeld
      (s.attempt calls).base.key (s.attempt calls).heldDeclarations []).declarations []
    rw [hbase] at hstored ⊢
    exact hdrawn.store hstored

/-- A round that is not kept leaves the store as it was. -/
theorem Behind.run {log : List Call} {s : Store} (h : s.Behind log) (round : Round) :
    (round.run s).2.Behind (log ++ (round.run s).1) ∧ (round.run s).2.key = s.key := by
  have hopened : Behind log { s with batchSize := round.batchSize } :=
    ⟨h.references, h.declarations⟩
  have hbase := base_attempt { s with batchSize := round.batchSize } round.calls
  unfold Round.run
  simp only
  split
  case isTrue =>
    split
    case h_1 s' hcommit =>
      refine ⟨hopened.commit hcommit, ?_⟩
      rw [(Transaction.commit_full hcommit).2]
      simp only [hbase]
    case h_2 fault s' hcommit =>
      obtain rfl := Transaction.commit_error hcommit
      simp only [hbase, List.append_nil, and_true]
      exact hopened
  case isFalse =>
    simp only [Transaction.rollback, hbase, List.append_nil, and_true]
    exact hopened

theorem Behind.runAll {log : List Call} {s : Store} (h : s.Behind log) (history : List Round) :
    (Round.runAll history s).2.Behind (log ++ (Round.runAll history s).1) ∧
      (Round.runAll history s).2.key = s.key := by
  induction history generalizing log s with
  | nil => exact ⟨by simpa [Round.runAll] using h, rfl⟩
  | cons round rest ih =>
    obtain ⟨hround, hkey⟩ := h.run round
    obtain ⟨hrest, hkey'⟩ := ih hround
    rw [List.append_assoc] at hrest
    exact ⟨hrest, hkey'.trans hkey⟩

namespace ReferenceRow

/-- What references are sorted by. -/
def place (r : ReferenceRow) : String × String × UInt32 × UInt32 :=
  (r.artifact, r.file, r.line, r.id)

/-- In the order of artifacts, then of files, of lines and of numbers within the file. -/
def UpTo (r q : ReferenceRow) : Prop :=
  r.artifact < q.artifact ∨ r.artifact = q.artifact ∧ (r.file < q.file ∨ r.file = q.file ∧
    (r.line < q.line ∨ r.line = q.line ∧ r.id ≤ q.id))

theorem upTo_of_precedes {r q : ReferenceRow} (h : r.precedes q) : r.UpTo q := by
  have hlt : ∀ {a b : String}, a ≠ b → a ≤ b → a < b := fun hne hle =>
    String.not_le.1 fun hge => hne (String.le_antisymm hle hge)
  have hlt' : ∀ {a b : UInt32}, a ≠ b → a ≤ b → a < b := fun hne hle =>
    UInt32.not_le.1 fun hge => hne (UInt32.le_antisymm hle hge)
  unfold precedes at h
  split at h
  case isTrue hartifact => exact .inl (hlt hartifact (of_decide_eq_true h))
  case isFalse hartifact =>
    refine .inr ⟨not_not.1 hartifact, ?_⟩
    split at h
    case isTrue hfile => exact .inl (hlt hfile (of_decide_eq_true h))
    case isFalse hfile =>
      refine .inr ⟨not_not.1 hfile, ?_⟩
      split at h
      case isTrue hline => exact .inl (hlt' hline (of_decide_eq_true h))
      case isFalse hline => exact .inr ⟨not_not.1 hline, of_decide_eq_true h⟩

theorem precedes_both (r q : ReferenceRow) :
    (r.precedes q && q.precedes r) = decide (q.place = r.place) := by
  rw [Bool.eq_iff_iff, Bool.and_eq_true, decide_eq_true_iff]
  constructor
  · rintro ⟨h, h'⟩
    obtain ⟨hartifact, hfile, hline, hid⟩ := precedes_antisymm r q h h'
    simp only [place, hartifact, hfile, hline, hid]
  · intro h
    obtain ⟨hartifact, hfile, hline, hid⟩ : q.artifact = r.artifact ∧ q.file = r.file ∧
        q.line = r.line ∧ q.id = r.id := by simpa [place] using h
    simp [precedes, hartifact, hfile, hline, hid]

end ReferenceRow

section Lookups

variable {s : Store}

/-- The references to a binding are sorted by place, with the rows of one place as they were
stored. -/
theorem referencesTo_of_keyed {rows : List ReferenceRow}
    (h : s.tables.references = rows.map fun row => ⟨s.key row.target, row⟩) (b : Binding) :
    (s.referencesTo b).Pairwise ReferenceRow.UpTo ∧
      AlikeBy ReferenceRow.place (s.referencesTo b) (rows.filter fun row => row.target = b) := by
  have hfound : s.referencesTo b =
      (rows.filter fun row => row.target = b).mergeSort ReferenceRow.precedes := by
    rw [referencesTo, h, ← found_rows s.key ReferenceRow.target rows b]
  rw [hfound]
  constructor
  · exact (List.pairwise_mergeSort ReferenceRow.precedes_trans ReferenceRow.precedes_total _).imp
      ReferenceRow.upTo_of_precedes
  · exact AlikeBy.of_mergeSort ReferenceRow.precedes_total ReferenceRow.precedes_trans
      ReferenceRow.precedes_both _

theorem mem_declarations {artifact : String} {row : DeclarationRow} :
    row ∈ s.declarations artifact ↔
      row ∈ s.tables.declarations.map Keyed.row ∧ row.artifact = artifact := by
  simp only [declarations, List.mem_mergeSort, List.mem_map, List.mem_filter, decide_eq_true_eq]
  constructor
  · rintro ⟨d, ⟨hd, hartifact⟩, rfl⟩
    exact ⟨⟨d, hd, rfl⟩, hartifact⟩
  · rintro ⟨⟨d, hd, rfl⟩, hartifact⟩
    exact ⟨d, ⟨hd, hartifact⟩, rfl⟩

theorem resolve?_eq {rows : List DeclarationRow}
    (h : DrawnFrom s.key rows s.tables.declarations []) (b : Binding) :
    s.resolve? b = (((s.tables.declarations.map Keyed.row).filter fun row =>
      row.binding = b).mergeSort fun d e => d.artifact ≤ e.artifact).head? := by
  have hkeyed := Tables.map_keyed (fun row : DeclarationRow => s.key row.binding) h.keyed
  rw [← found_rows s.key DeclarationRow.binding, hkeyed]
  rfl

theorem head?_mergeSort_artifact {rows : List DeclarationRow}
    (hties : ∀ d ∈ rows, ∀ e ∈ rows, d.artifact = e.artifact → d = e) (d : DeclarationRow) :
    (rows.mergeSort fun d e => d.artifact ≤ e.artifact).head? = some d ↔
      d ∈ rows ∧ ∀ e ∈ rows, d.artifact ≤ e.artifact := by
  let earlier (d e : DeclarationRow) : Bool := d.artifact ≤ e.artifact
  have htotal : ∀ d e, earlier d e || earlier e d := fun d e => text_total d.artifact e.artifact
  have htrans : ∀ d e f, earlier d e → earlier e f → earlier d f :=
    fun d e f => text_trans d.artifact e.artifact f.artifact
  have hequal : ∀ d ∈ rows, ∀ e ∈ rows, earlier d e → earlier e d → d = e :=
    fun d hd e he hde hed => hties d hd e he (text_antisymm _ _ hde hed)
  have hfirst := head?_mergeSort_eq_some htotal htrans hequal d
  simpa [earlier] using hfirst

/-- A binding is resolved to its declaration in the first artifact that declares it. -/
theorem resolve?_eq_some {rows : List DeclarationRow}
    (h : DrawnFrom s.key rows s.tables.declarations []) (b : Binding) (d : DeclarationRow) :
    s.resolve? b = some d ↔ d ∈ s.declarations d.artifact ∧ d.binding = b ∧
      ∀ artifact, ∀ e ∈ s.declarations artifact, e.binding = b → d.artifact ≤ artifact := by
  rw [resolve?_eq h, head?_mergeSort_artifact]
  case hties =>
    intro d hd e he hartifact
    obtain ⟨hd, hbinding⟩ := List.mem_filter.1 hd
    obtain ⟨he, hbinding'⟩ := List.mem_filter.1 he
    have hsame := (of_decide_eq_true hbinding).trans (of_decide_eq_true hbinding').symm
    exact h.unique hd he hartifact hsame
  simp only [List.mem_filter, decide_eq_true_eq, mem_declarations, and_true]
  constructor
  · rintro ⟨⟨hd, hbinding⟩, hleast⟩
    refine ⟨hd, hbinding, ?_⟩
    rintro artifact e ⟨he, rfl⟩ hbinding'
    exact hleast e ⟨he, hbinding'⟩
  · rintro ⟨hd, hbinding, hleast⟩
    exact ⟨⟨hd, hbinding⟩, fun e he => hleast e.artifact e ⟨he.1, rfl⟩ he.2⟩

theorem resolve?_eq_none {rows : List DeclarationRow}
    (h : DrawnFrom s.key rows s.tables.declarations []) (b : Binding) :
    s.resolve? b = none ↔ ∀ artifact, ∀ e ∈ s.declarations artifact, e.binding ≠ b := by
  rw [resolve?_eq h, List.head?_eq_none_iff, List.eq_nil_iff_forall_not_mem]
  simp only [List.mem_mergeSort, List.mem_filter, decide_eq_true_eq, not_and, mem_declarations]
  constructor
  · rintro hnone artifact e ⟨he, -⟩
    exact hnone e he
  · intro hnone e he
    exact hnone e.artifact e ⟨he, rfl⟩

end Lookups

/-- After any transactions that are committed or rolled back, the references that are stored are
those that were asked for, and every declaration was. Whatever the numbers are, a lookup gives the
rows that have the text of the binding: references sorted by place, those of one place as they came,
and the declaration in the first artifact that has one. -/
theorem lookups_scan (key : Binding → Int64) (batchSize : Nat) (history : List Round) :
    ∃ log s, Round.runAll history ⟨key, batchSize, {}⟩ = (log, s) ∧
      s.tables.KeyedBy key ∧ s.tables.references.map Keyed.row = referred log ∧
      (s.tables.declarations.map Keyed.row).Sublist (submitted log) ∧
      (∀ b, (s.referencesTo b).Pairwise ReferenceRow.UpTo ∧
        AlikeBy ReferenceRow.place (s.referencesTo b)
          ((referred log).filter fun row => row.target = b)) ∧
      (∀ b d, s.resolve? b = some d ↔ d ∈ s.declarations d.artifact ∧ d.binding = b ∧
        ∀ artifact, ∀ e ∈ s.declarations artifact, e.binding = b → d.artifact ≤ artifact) ∧
      ∀ b, s.resolve? b = none ↔ ∀ artifact, ∀ e ∈ s.declarations artifact, e.binding ≠ b := by
  have hempty : Behind [] ⟨key, batchSize, {}⟩ := ⟨rfl, ⟨by simp, by simp, by simp⟩⟩
  obtain ⟨hbehind, hkey⟩ := hempty.runAll history
  generalize Round.runAll history ⟨key, batchSize, {}⟩ = result at hbehind hkey
  obtain ⟨log, s⟩ := result
  obtain rfl : s.key = key := hkey
  obtain ⟨hreferences, hdrawn⟩ := hbehind
  refine ⟨log, s, rfl, ⟨hdrawn.keyed, ?_⟩, ?_, ?_, referencesTo_of_keyed hreferences,
    resolve?_eq_some hdrawn, resolve?_eq_none hdrawn⟩
  · rw [hreferences]
    intro r hr
    obtain ⟨row, -, rfl⟩ := List.mem_map.1 hr
    rfl
  · rw [hreferences, List.map_map]
    exact List.map_id _
  · simpa using hdrawn.drawn

end CrossRef.Store
