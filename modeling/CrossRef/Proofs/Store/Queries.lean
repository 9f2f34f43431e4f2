import CrossRef.Proofs.Alike
import CrossRef.Store

namespace CrossRef.Store

section Order

variable {ρ : Type} {α : Type} [DecidableEq α]

/-- By one part of a row, and by `rest` where this part is the same. -/
def thenBy (part : ρ → α) (le : α → α → Bool) (rest : ρ → ρ → Bool) (r q : ρ) : Bool :=
  if part r ≠ part q then le (part r) (part q) else rest r q

variable {part : ρ → α} {le : α → α → Bool} {rest : ρ → ρ → Bool}

theorem thenBy_total (hle : ∀ a b, le a b || le b a) (hrest : ∀ r q, rest r q || rest q r)
    (r q : ρ) : thenBy part le rest r q || thenBy part le rest q r := by
  unfold thenBy
  by_cases h : part r = part q
  · simpa [h] using hrest r q
  · simpa [h, Ne.symm h] using hle (part r) (part q)

theorem thenBy_trans (hle : ∀ a b c, le a b → le b c → le a c)
    (hanti : ∀ a b, le a b → le b a → a = b) (hrest : ∀ r q s, rest r q → rest q s → rest r s)
    (r q s : ρ) (h : thenBy part le rest r q) (h' : thenBy part le rest q s) :
    thenBy part le rest r s := by
  unfold thenBy at *
  by_cases hrq : part r = part q
  · by_cases hqs : part q = part s
    · simp only [hrq, hqs, ne_eq, not_true, if_false] at h h' ⊢
      exact hrest r q s h h'
    · simpa [hrq, hqs] using h'
  · by_cases hqs : part q = part s
    · simpa [hrq, ← hqs] using h
    · simp only [ne_eq, hrq, hqs, not_false_eq_true, if_true] at h h'
      have hrs : part r ≠ part s := by
        intro he
        rw [he] at h
        exact hqs (hanti _ _ h' h)
      simpa [hrs] using hle _ _ _ h h'

theorem thenBy_antisymm (hanti : ∀ a b, le a b → le b a → a = b) {r q : ρ}
    (h : thenBy part le rest r q) (h' : thenBy part le rest q r) :
    part r = part q ∧ rest r q ∧ rest q r := by
  unfold thenBy at *
  by_cases hrq : part r = part q
  · simp only [hrq, ne_eq, not_true, if_false] at h h'
    exact ⟨hrq, h, h'⟩
  · simp only [ne_eq, hrq, Ne.symm hrq, not_false_eq_true, if_true] at h h'
    exact absurd (hanti _ _ h h') hrq

end Order

theorem text_total (a b : String) : decide (a ≤ b) || decide (b ≤ a) := by
  simpa using String.le_total a b

theorem text_trans (a b c : String) (h : decide (a ≤ b)) (h' : decide (b ≤ c)) : decide (a ≤ c) := by
  simp only [decide_eq_true_eq] at *
  exact String.le_trans h h'

theorem text_antisymm (a b : String) (h : decide (a ≤ b)) (h' : decide (b ≤ a)) : a = b := by
  simp only [decide_eq_true_eq] at *
  exact String.le_antisymm h h'

theorem word_total (a b : UInt32) : decide (a ≤ b) || decide (b ≤ a) := by
  simpa using UInt32.le_total a b

theorem word_trans (a b c : UInt32) (h : decide (a ≤ b)) (h' : decide (b ≤ c)) : decide (a ≤ c) := by
  simp only [decide_eq_true_eq] at *
  exact UInt32.le_trans h h'

theorem word_antisymm (a b : UInt32) (h : decide (a ≤ b)) (h' : decide (b ≤ a)) : a = b := by
  simp only [decide_eq_true_eq] at *
  exact UInt32.le_antisymm h h'

namespace ReferenceRow

theorem precedes_eq :
    precedes = thenBy artifact (fun a b => decide (a ≤ b)) (thenBy file (fun a b => decide (a ≤ b))
      (thenBy line (fun a b => decide (a ≤ b)) fun r q => decide (r.id ≤ q.id))) := by
  funext r q
  simp [precedes, thenBy]

theorem precedes_total (r q : ReferenceRow) : r.precedes q || q.precedes r := by
  rw [precedes_eq]
  exact thenBy_total text_total (thenBy_total text_total (thenBy_total word_total
    fun r q => word_total r.id q.id)) r q

theorem precedes_trans (r q s : ReferenceRow) (h : r.precedes q) (h' : q.precedes s) :
    r.precedes s := by
  rw [precedes_eq] at *
  exact thenBy_trans text_trans text_antisymm (thenBy_trans text_trans text_antisymm
    (thenBy_trans word_trans word_antisymm fun r q s => word_trans r.id q.id s.id)) r q s h h'

theorem precedes_antisymm (r q : ReferenceRow) (h : r.precedes q) (h' : q.precedes r) :
    r.artifact = q.artifact ∧ r.file = q.file ∧ r.line = q.line ∧ r.id = q.id := by
  rw [precedes_eq] at h h'
  obtain ⟨hartifact, h, h'⟩ := thenBy_antisymm text_antisymm h h'
  obtain ⟨hfile, h, h'⟩ := thenBy_antisymm text_antisymm h h'
  obtain ⟨hline, h, h'⟩ := thenBy_antisymm word_antisymm h h'
  exact ⟨hartifact, hfile, hline, word_antisymm _ _ h h'⟩

end ReferenceRow

theorem binding_ext {b c : Binding} (h : b.text = c.text) : b = c := congrArg Binding.mk h

theorem sorted_eq_of_perm {xs ys : List String} (h : xs.Perm ys) : sorted xs = sorted ys := by
  have hxs := List.pairwise_mergeSort text_trans text_total xs
  have hys := List.pairwise_mergeSort text_trans text_total ys
  refine List.Perm.eq_of_pairwise (fun a b _ _ => text_antisymm a b) hxs hys ?_
  exact (xs.mergeSort_perm _).trans (h.trans (ys.mergeSort_perm _).symm)

/-- The rows of an artifact, of a file, of a declaration and of a pair stand in the same order, and
so do the references out of one file. -/
structure Tables.Alike (t u : Tables) : Prop where
  artifacts : AlikeBy (fun a => a.1) t.artifacts u.artifacts
  files : AlikeBy (fun f => (f.1, f.2.path)) t.files u.files
  declarations : AlikeBy (fun d => (d.row.artifact, d.row.binding)) t.declarations u.declarations
  references : AlikeBy (fun r => (r.row.artifact, r.row.file)) t.references u.references
  dependencies : AlikeBy id t.dependencies u.dependencies
  aliases : AlikeBy id t.aliases u.aliases

namespace Tables.Alike

variable {t u v : Tables}

theorem refl (t : Tables) : t.Alike t :=
  ⟨.refl _, .refl _, .refl _, .refl _, .refl _, .refl _⟩

theorem symm (h : t.Alike u) : u.Alike t :=
  ⟨h.artifacts.symm, h.files.symm, h.declarations.symm, h.references.symm, h.dependencies.symm,
    h.aliases.symm⟩

theorem trans (h : t.Alike u) (h' : u.Alike v) : t.Alike v :=
  ⟨h.artifacts.trans h'.artifacts, h.files.trans h'.files, h.declarations.trans h'.declarations,
    h.references.trans h'.references, h.dependencies.trans h'.dependencies,
    h.aliases.trans h'.aliases⟩

end Tables.Alike

/-- Stores that no query tells apart. -/
structure SameAnswers (s t : Store) : Prop where
  artifacts : s.artifacts = t.artifacts
  artifactVersion? : ∀ artifact, s.artifactVersion? artifact = t.artifactVersion? artifact
  needsRecompile : ∀ artifact version,
    s.needsRecompile artifact version = t.needsRecompile artifact version
  status : ∀ artifact, s.status artifact = t.status artifact
  declarations : ∀ artifact, s.declarations artifact = t.declarations artifact
  referencesTo : ∀ b, s.referencesTo b = t.referencesTo b
  resolve? : ∀ b, s.resolve? b = t.resolve? b
  filePaths : ∀ artifact, s.filePaths artifact = t.filePaths artifact
  file : ∀ artifact path, s.file artifact path = t.file artifact path
  dependencies : ∀ artifact, s.dependencies artifact = t.dependencies artifact
  aliases : ∀ artifact, s.aliases artifact = t.aliases artifact

section Alike

variable {s t : Store} (h : s.tables.Alike t.tables)
include h

theorem artifacts_alike : s.artifacts = t.artifacts :=
  sorted_eq_of_perm (h.artifacts.perm.map Prod.fst)

theorem artifactVersion?_alike (artifact : String) :
    s.artifactVersion? artifact = t.artifactVersion? artifact := by
  unfold artifactVersion?
  rw [h.artifacts.find? artifact fun a ha => by simpa using ha]

theorem needsRecompile_alike (artifact : String) (version : Int64) :
    s.needsRecompile artifact version = t.needsRecompile artifact version := by
  unfold needsRecompile
  rw [artifactVersion?_alike h]

theorem dependencies_alike (artifact : String) :
    s.dependencies artifact = t.dependencies artifact :=
  sorted_eq_of_perm ((h.dependencies.perm.filter _).map Prod.snd)

theorem aliases_alike (artifact : String) : s.aliases artifact = t.aliases artifact :=
  sorted_eq_of_perm ((h.aliases.perm.filter _).map Prod.snd)

theorem status_alike (artifact : String) : s.status artifact = t.status artifact := by
  unfold status
  rw [artifactVersion?_alike h, h.files.perm.countP_eq, h.declarations.perm.countP_eq,
    h.references.perm.countP_eq, dependencies_alike h, aliases_alike h]

theorem declarations_alike (artifact : String) :
    s.declarations artifact = t.declarations artifact := by
  have hrows := (h.declarations.filter fun d => d.row.artifact = artifact).refine
    (fun d => d.row.binding) fun d hd e he hde => by
      rw [of_decide_eq_true (List.mem_filter.1 hd).2, of_decide_eq_true (List.mem_filter.1 he).2, hde]
  refine (hrows.map Keyed.row).mergeSort_eq
    (fun d e => text_total d.binding.text e.binding.text)
    (fun d e f => text_trans d.binding.text e.binding.text f.binding.text) fun d e hd he => ?_
  exact binding_ext (text_antisymm d.binding.text e.binding.text hd he)

theorem referencesTo_alike (hk : s.key = t.key) (b : Binding) :
    s.referencesTo b = t.referencesTo b := by
  have hrows : AlikeBy (fun row : ReferenceRow => (row.artifact, row.file)) _ _ :=
    (h.references.filter fun r => r.key = t.key b).map Keyed.row
  unfold referencesTo
  rw [hk]
  refine (hrows.filter fun row => row.target = b).mergeSort_eq ReferenceRow.precedes_total
    ReferenceRow.precedes_trans fun r q hr hq => ?_
  obtain ⟨hartifact, hfile, -⟩ := ReferenceRow.precedes_antisymm r q hr hq
  rw [hartifact, hfile]

theorem resolve?_alike (hk : s.key = t.key) (b : Binding) : s.resolve? b = t.resolve? b := by
  have hrows : AlikeBy (fun row : DeclarationRow => (row.artifact, row.binding)) _ _ :=
    (h.declarations.filter fun d => d.key = t.key b).map Keyed.row
  have hfound := (hrows.filter fun row => row.binding = b).refine DeclarationRow.artifact
    fun d hd e he hde => by
      rw [of_decide_eq_true (List.mem_filter.1 hd).2, of_decide_eq_true (List.mem_filter.1 he).2, hde]
  unfold resolve?
  rw [hk]
  simp only
  rw [hfound.mergeSort_eq (fun d e => text_total d.artifact e.artifact)
    (fun d e f => text_trans d.artifact e.artifact f.artifact)
    fun d e => text_antisymm d.artifact e.artifact]

theorem filePaths_alike (artifact : String) : s.filePaths artifact = t.filePaths artifact :=
  sorted_eq_of_perm ((h.files.perm.filter _).map _)

theorem file_alike (artifact path : String) : s.file artifact path = t.file artifact path := by
  unfold file
  rw [h.files.find? (artifact, path) fun f hf => by simpa using hf]

theorem sameAnswers_of_alike (hk : s.key = t.key) : SameAnswers s t :=
  ⟨artifacts_alike h, artifactVersion?_alike h, needsRecompile_alike h, status_alike h,
    declarations_alike h, referencesTo_alike h hk, resolve?_alike h hk, filePaths_alike h,
    file_alike h, dependencies_alike h, aliases_alike h⟩

end Alike

end CrossRef.Store
