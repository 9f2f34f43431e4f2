import CrossRef.Proofs.Library.Anchors
import CrossRef.Proofs.Markup.NormalOrder
import CrossRef.Proofs.Store.Link

namespace CrossRef

open Markup (inOrder)
open Markup.Html (Splits Tag Token elements)
open Store (DeclarationRow)
open Text.Percent (encode)

namespace Store

variable (s : Store) (b : Binding)

/-- A stored file that declares a binding. -/
def DeclaredIn (artifact path : String) : Prop :=
  ∃ file, s.file artifact path = .ok file ∧ ∃ fact ∈ file.facts, fact.payload = .declaration b

/-- The one file that declares a binding in the first artifact with such a file. -/
structure FirstIn (artifact path : String) : Prop where
  declared : s.DeclaredIn b artifact path
  first : ∀ other path', s.DeclaredIn b other path' → artifact ≤ other
  only : ∀ path', s.DeclaredIn b artifact path' → path' = path

/-- Targets of a reference to a binding, by the files that declare it. -/
inductive LeadsTo (artifact path : String) : String → Prop
  | here : s.FirstIn b artifact path → LeadsTo artifact path ("#" ++ encode b.text)
  | there {other path' : String} : s.FirstIn b other path' → (other, path') ≠ (artifact, path) →
      LeadsTo artifact path ("/" ++ other ++ "/" ++ path' ++ "#" ++ encode b.text)
  | nowhere : (∀ other path', ¬ s.DeclaredIn b other path') →
      LeadsTo artifact path ("/references?binding=" ++ encode b.text)

variable {s b} {artifact path target : String}

/-- In a file that declares the binding a link stays there just if no artifact comes before. -/
theorem LeadsTo.here_iff (h : s.LeadsTo b artifact path target)
    (hdeclared : s.DeclaredIn b artifact path) :
    target = "#" ++ encode b.text ↔ ∀ other path', s.DeclaredIn b other path' → artifact ≤ other := by
  cases h with
  | here hfirst => exact ⟨fun _ => hfirst.first, fun _ => rfl⟩
  | @there other path' hfirst hne =>
    constructor
    · intro he
      have hcharacters := congrArg String.toList he
      simp at hcharacters
    · intro hleast
      have hartifact : other = artifact :=
        String.le_antisymm (hfirst.first _ _ hdeclared) (hleast _ _ hfirst.declared)
      subst hartifact
      have hpath : path = path' := hfirst.only path hdeclared
      exact absurd (by rw [hpath]) hne
  | nowhere hnone => exact absurd hdeclared (hnone artifact path)

end Store

theorem SourceFile.mem_declarations {file : SourceFile} {b : Binding} :
    b ∈ file.declarations.map Prod.snd ↔ ∃ fact ∈ file.facts, fact.payload = .declaration b := by
  simp only [declarations, List.mem_map, List.mem_filterMap, Prod.exists]
  constructor
  · intro h
    obtain ⟨start, b', ⟨⟨start', length, payload⟩, hmem, hfact⟩, rfl⟩ := h
    cases payload <;> simp at hfact
    obtain ⟨rfl, rfl⟩ := hfact
    exact ⟨_, hmem, rfl⟩
  · intro h
    obtain ⟨fact, hmem, hpayload⟩ := h
    exact ⟨fact.start, b, ⟨fact, hmem, by rw [hpayload]⟩, rfl⟩

theorem Content.bindings_declarations (c : Content) (artifact : String) :
    (c.declarations artifact).map DeclarationRow.binding =
      c.files.toList.flatMap fun f => f.2.declarations.map Prod.snd := by
  simp [declarations, List.map_flatMap, SourceFile.declarationsAt, Function.comp_def]

theorem Content.mem_declarations {c : Content} {artifact path : String} {b : Binding} :
    (∃ row ∈ c.declarations artifact, row.file = path ∧ row.binding = b) ↔
      ∃ file, (path, file) ∈ c.files.toList ∧ b ∈ file.declarations.map Prod.snd := by
  simp only [declarations, List.mem_flatMap, SourceFile.declarationsAt, List.mem_map]
  constructor
  · intro h
    obtain ⟨row, ⟨f, hf, d, hd, rfl⟩, rfl, rfl⟩ := h
    exact ⟨f.2, hf, d, hd, rfl⟩
  · intro h
    obtain ⟨file, hf, d, hd, rfl⟩ := h
    exact ⟨_, ⟨(path, file), hf, d, hd, rfl⟩, rfl, rfl⟩

theorem Content.Settled.row_eq {c : Content} (h : c.Settled) {artifact : String}
    {row row' : DeclarationRow} (hrow : row ∈ c.declarations artifact)
    (hrow' : row' ∈ c.declarations artifact) (hbinding : row.binding = row'.binding) :
    row = row' := by
  have hnodup : ((c.declarations artifact).map DeclarationRow.binding).Nodup := by
    rw [c.bindings_declarations]
    exact h.declared
  exact List.inj_on_of_nodup_map hnodup hrow hrow' hbinding

namespace Library

variable {l : Library} {artifact path : String} {b : Binding}

theorem file_eq_ok_iff {file : SourceFile} : l.file artifact path = .ok file ↔
    ∃ c, l.content? artifact = some c ∧ (path, file) ∈ c.files.toList := by
  constructor
  · intro h
    obtain ⟨c, hc, hget⟩ := content?_of_file h
    exact ⟨c, hc, (Catalog.mem_of_get? hget).1⟩
  · intro h
    obtain ⟨c, hc, hmem⟩ := h
    have hget : c.files.get? path = some (path, file) := Catalog.get?_eq_some_iff.2 ⟨hmem, rfl⟩
    rw [Library.file, hc, Option.bind_some, hget, Option.elim_some]

theorem mem_declarationRows {row : DeclarationRow} : row ∈ l.declarationRows ↔
    ∃ c, l.content? row.artifact = some c ∧ row ∈ c.declarations row.artifact := by
  have hown : row ∈ l.declarationRows ↔
      row ∈ (l.content? row.artifact).elim [] (Content.declarations row.artifact) := by
    rw [← l.declarationRows_of, List.mem_filter]
    simp
  rw [hown]
  cases l.content? row.artifact <;> simp

theorem declares_iff : (∃ row ∈ l.declarationRows,
      row.artifact = artifact ∧ row.file = path ∧ row.binding = b) ↔
    ∃ file, l.file artifact path = .ok file ∧
      ∃ fact ∈ file.facts, fact.payload = .declaration b := by
  simp only [file_eq_ok_iff, ← SourceFile.mem_declarations]
  constructor
  · intro h
    obtain ⟨row, hrow, rfl, hfile, hbinding⟩ := h
    obtain ⟨c, hc, hrow⟩ := mem_declarationRows.1 hrow
    obtain ⟨file, hmem, hb⟩ := Content.mem_declarations.1 ⟨row, hrow, hfile, hbinding⟩
    exact ⟨file, ⟨c, hc, hmem⟩, hb⟩
  · intro h
    obtain ⟨file, ⟨c, hc, hmem⟩, hb⟩ := h
    obtain ⟨row, hrow, hfile, hbinding⟩ := Content.mem_declarations.2 ⟨file, hmem, hb⟩
    obtain rfl : row.artifact = artifact := artifact_of_declaration (artifact, c) row hrow
    exact ⟨row, mem_declarationRows.2 ⟨c, hc, hrow⟩, rfl, hfile, hbinding⟩

theorem le_of_resolve? {row other : DeclarationRow} (h : l.resolve? b = some row)
    (hmem : other ∈ l.declarationRows) (hbinding : other.binding = b) :
    row.artifact ≤ other.artifact := by
  obtain ⟨-, before, behind, hrows, hbefore⟩ := List.find?_eq_some_iff_append.1 h
  have hrows' : l.declarationRows = before ++ row :: behind := hrows
  have hascending := l.declarationRows_ascending
  rw [hrows'] at hmem hascending
  rcases List.mem_append.1 hmem with hmem | hmem
  · have hother := hbefore other hmem
    simp [hbinding] at hother
  rcases List.mem_cons.1 hmem with rfl | hmem
  · exact String.le_refl _
  · exact (List.pairwise_cons.1 (List.pairwise_append.1 hascending).2.1).1 other hmem

end Library

namespace Store.Answers

variable {s : Store} {l : Library} (h : s.Answers l)
include h

theorem declaredIn_iff {b : Binding} {artifact path : String} : s.DeclaredIn b artifact path ↔
    ∃ row ∈ l.declarationRows, row.artifact = artifact ∧ row.file = path ∧ row.binding = b := by
  rw [Library.declares_iff, DeclaredIn, h.file]

variable (hsettled : ∀ artifact c, l.content? artifact = some c → c.Settled)
include hsettled

theorem firstIn_of_resolve? {b : Binding} {row : DeclarationRow} (hrow : l.resolve? b = some row) :
    s.FirstIn b row.artifact row.file where
  declared := by
    have hbinding : row.binding = b := by simpa using List.find?_some hrow
    exact h.declaredIn_iff.2 ⟨row, List.mem_of_find?_eq_some hrow, rfl, rfl, hbinding⟩
  first := by
    intro other path' hdeclared
    obtain ⟨row', hmem, rfl, -, hbinding⟩ := h.declaredIn_iff.1 hdeclared
    exact Library.le_of_resolve? hrow hmem hbinding
  only := by
    intro path' hdeclared
    obtain ⟨row', hmem, hartifact, rfl, hbinding⟩ := h.declaredIn_iff.1 hdeclared
    have hbinding' : row.binding = b := by simpa using List.find?_some hrow
    obtain ⟨c, hc, hin⟩ := Library.mem_declarationRows.1 (List.mem_of_find?_eq_some hrow)
    obtain ⟨c', hc', hin'⟩ := Library.mem_declarationRows.1 hmem
    rw [hartifact] at hc' hin'
    obtain rfl : c = c' := Option.some.inj (hc.symm.trans hc')
    rw [(hsettled _ c hc).row_eq hin' hin (hbinding.trans hbinding'.symm)]

theorem leadsTo_link (artifact path : String) (b : Binding) :
    s.LeadsTo b artifact path (s.link artifact path b) := by
  unfold link
  simp only [h.resolve? b]
  cases hresolve : l.resolve? b with
  | none =>
    refine .nowhere fun other path' hdeclared => ?_
    obtain ⟨row, hmem, -, -, hbinding⟩ := h.declaredIn_iff.1 hdeclared
    have hnot := List.find?_eq_none.1 hresolve row hmem
    simp [hbinding] at hnot
  | some row =>
    have hfirst := h.firstIn_of_resolve? hsettled hresolve
    simp only
    split
    case isTrue hsame =>
      obtain ⟨rfl, rfl⟩ := hsame
      exact .here hfirst
    case isFalse hother =>
      exact .there hfirst fun he => hother (Prod.mk.inj he)

end Store.Answers

namespace Markup.Html

/-- The targets of the links in an output, other than those that begin lines. -/
def targets (tokens : List Token) : List String :=
  (elements tokens).filterMap fun tag => tag.attributes.lookup "href"

theorem targets_of_render {link : Binding → String} {text html : String} {facts : List Fact}
    (h : render link text facts = .ok html) :
    ∃ tokens, Splits html.toList tokens ∧
      targets tokens = (SourceFile.mk text (inOrder facts)).mentions.map fun m => link m.target := by
  obtain ⟨tokens, hsplits, helements⟩ := elements_of_render h
  refine ⟨tokens, hsplits, ?_⟩
  rw [targets, helements, SourceFile.mentions, List.filterMap_map, List.map_filterMap]
  apply List.filterMap_congr
  intro fact _
  obtain ⟨start, length, payload⟩ := fact
  cases payload <;> rfl

theorem render_of_allFit (link : Binding → String) {text : String} {facts : List Fact}
    (h : AllFit text.toList (inOrder facts)) : ∃ html, render link text facts = .ok html := by
  obtain ⟨⟨nodes, state⟩, hout⟩ := Markup.render_of_allFit (emitter link) text facts .first h
  exact ⟨(finish (String.join nodes) state).1, by rw [render, hout]⟩

end Markup.Html

theorem SourceFile.inOrder_normal {file : SourceFile} (h : file.normalize = (file, none)) :
    inOrder file.facts = file.facts := by
  have hfacts : CrossRef.normalize file.facts = (file.facts, (CrossRef.normalize file.facts).2) :=
    Prod.ext (congrArg (fun out => out.1.facts) h) rfl
  refine Markup.inOrder_of_sorted ((normalize_leads hfacts).imp fun hlead => ?_)
  rcases hlead with hlt | ⟨heq, -⟩
  · exact UInt32.le_of_lt hlt
  · exact UInt32.le_of_eq heq

/-- After any history that begins with an empty index, a link leads to a file that declares its
binding, or to the listing when there is none. Of several artifacts with such a file it is the
first; where the file of the link has a declaration too, the link stays in it only if no artifact in
front of its own has one. The links in the output of a file are those of its references, in
order. -/
theorem links_lead (key : Binding → Int64) (queueCapacity batchSize : Nat)
    (history : List Operation) :
    ∃ log x, Operation.runAll history ⟨⟨key, batchSize, {}⟩, queueCapacity⟩ = some (log, x) ∧
      ∀ artifact path,
        (∀ b, x.store.LeadsTo b artifact path (x.store.link artifact path b)) ∧
        (∀ b, x.store.DeclaredIn b artifact path →
          (x.store.link artifact path b = "#" ++ encode b.text ↔
            ∀ other path', x.store.DeclaredIn b other path' → artifact ≤ other)) ∧
        ∀ file html, x.store.file artifact path = .ok file →
          x.store.renderHtml artifact path = .ok html →
            ∃ tokens, Splits html.toList tokens ∧
              Markup.Html.targets tokens =
                file.mentions.map fun m => x.store.link artifact path m.target := by
  obtain ⟨log, x, hrun, hholds, hsettled⟩ :=
    Operation.runAll_empty key queueCapacity batchSize history
  have hleads := hholds.answers.leadsTo_link fun artifact c => Library.settled_of_content? hsettled
  refine ⟨log, x, hrun, fun artifact path => ⟨hleads artifact path, ?_, ?_⟩⟩
  · intro b hdeclared
    exact (hleads artifact path b).here_iff hdeclared
  · intro file html hfile hhtml
    have htargets := Markup.Html.targets_of_render (Store.render_of_renderHtml hfile hhtml)
    rw [hholds.answers.file] at hfile
    obtain ⟨c, hc, hget⟩ := Library.content?_of_file hfile
    have hnormal := (Library.settled_of_content? hsettled hc).normal _ (Catalog.mem_of_get? hget).1
    rwa [SourceFile.inOrder_normal hnormal] at htargets

theorem Operation.runAll_dumps {es : List (String × Content)} (h : ∀ e ∈ es, e.2.Settled)
    (x : Indexer) :
    ∃ y, runAll (es.map fun e => .ingestDump (e.2.dump e.1) true) x = some (es, y) := by
  induction es generalizing x with
  | nil => exact ⟨x, rfl⟩
  | cons e es ih =>
    obtain ⟨artifact, c⟩ := e
    have hsettled : c.Settled := h _ List.mem_cons_self
    obtain ⟨summary, hok⟩ := hsettled.succeeds (Ingest.production_runs (c.dump artifact)) x
    obtain ⟨y, hy⟩ := ih (fun e he => h e (List.mem_cons_of_mem _ he))
      (x.ingestDump (c.dump artifact) true).2
    have hingest : (x.ingest artifact (Ingest.stepsOf (c.dump artifact))).1 = .ok summary := hok
    have hreport : (x.ingestDump (c.dump artifact) true).1 = .ok (.indexed summary) := by
      rw [Indexer.ingestDump, if_pos rfl]
      exact congrArg (Except.map Ingested.indexed) hingest
    have hgain : Ingested.gain? artifact (Ingest.stepsOf (c.dump artifact))
        (x.ingestDump (c.dump artifact) true).1 = some (artifact, c) := by
      rw [hreport, Ingested.gain?, Content.ofSteps_dump hsettled]
    refine ⟨y, ?_⟩
    rw [List.map_cons, runAll, run, Option.bind_some, hy, Option.map_some]
    exact congrArg (fun gain : Option _ => some (gain.toList ++ es, y)) hgain

/-- A file that declares a binding and refers to it. -/
def SourceFile.selfReferring : SourceFile :=
  ⟨"XX", [⟨0, 1, .declaration ⟨"X"⟩⟩, ⟨1, 1, .reference ⟨"X"⟩ .cast 0⟩]⟩

/-- An artifact with that file and nothing else. -/
def Content.selfReferring : Content where
  version := compileVersion
  dependencies := .empty
  aliases := .empty
  files := ⟨[("A.java", .selfReferring)], List.pairwise_singleton _ _⟩

theorem SourceFile.normalize_selfReferring : selfReferring.normalize = (selfReferring, none) :=
  normalize_of_settled (by decide) rfl

theorem Content.settled_selfReferring : Content.selfReferring.Settled where
  version := rfl
  nonempty := by simp [selfReferring]
  normal := by
    intro f hf
    obtain rfl : f = ("A.java", .selfReferring) := by simpa [selfReferring] using hf
    exact SourceFile.normalize_selfReferring
  declared := by
    simp [selfReferring, SourceFile.selfReferring, SourceFile.declarations]

/-- What two versions of a library bring into an index, alike in all but the name. -/
def Library.versions : List (String × Content) :=
  [("lib-1", .selfReferring), ("lib-2", .selfReferring)]

theorem Library.settled_versions : ∀ e ∈ versions, e.2.Settled := by
  intro e he
  simp only [versions, List.mem_cons, List.not_mem_nil, or_false] at he
  rcases he with rfl | rfl <;> exact Content.settled_selfReferring

/-- The index that two such versions make up; the file of the second has a link to the first. -/
theorem Operation.runAll_versions :
    ∃ x, runAll (Library.versions.map fun e => .ingestDump (e.2.dump e.1) true)
        ⟨⟨fun _ => 0, 1, {}⟩, 1⟩ = some (Library.versions, x) ∧
      x.store.file "lib-2" "A.java" = .ok .selfReferring ∧
      x.store.link "lib-2" "A.java" ⟨"X"⟩ = "/lib-1/A.java#X" ∧
      ∃ html, x.store.renderHtml "lib-2" "A.java" = .ok html := by
  obtain ⟨x, hrun⟩ := runAll_dumps Library.settled_versions ⟨⟨fun _ => 0, 1, {}⟩, 1⟩
  obtain ⟨log, y, hrun', hholds, -⟩ := runAll_empty (fun _ => 0) 1 1
    (Library.versions.map fun e => .ingestDump (e.2.dump e.1) true)
  obtain ⟨rfl, rfl⟩ := Prod.mk.inj (Option.some.inj (hrun.symm.trans hrun'))
  have hfile : x.store.file "lib-2" "A.java" = .ok .selfReferring := by
    rw [hholds.answers.file]
    rfl
  have hresolve : x.store.resolve? ⟨"X"⟩ = some ⟨"lib-1", ⟨"X"⟩, "A.java", true⟩ := by
    rw [hholds.answers.resolve?]
    decide +kernel
  refine ⟨x, hrun, hfile, ?_, ?_⟩
  · unfold Store.link
    simp only [hresolve]
    decide +kernel
  · have hfit : Markup.AllFit SourceFile.selfReferring.text.toList
        (inOrder SourceFile.selfReferring.facts) := by
      rw [SourceFile.inOrder_normal SourceFile.normalize_selfReferring, Markup.allFit_iff]
      decide +kernel
    obtain ⟨html, hhtml⟩ := Markup.Html.render_of_allFit (x.store.link "lib-2" "A.java") hfit
    refine ⟨html, ?_⟩
    rw [Store.renderHtml, hfile]
    exact hhtml

/-- The link of a file to a binding that is declared there and in another version. -/
theorem links_lead_versions :
    let history := Library.versions.map fun e => Operation.ingestDump (e.2.dump e.1) true
    ∃ log x html tokens,
      Operation.runAll history ⟨⟨fun _ => 0, 1, {}⟩, 1⟩ = some (log, x) ∧
      x.store.file "lib-2" "A.java" = .ok .selfReferring ∧
      x.store.renderHtml "lib-2" "A.java" = .ok html ∧ Splits html.toList tokens ∧
      Markup.Html.targets tokens = ["/lib-1/A.java#X"] := by
  intro history
  obtain ⟨x, hrun, hfile, hlink, html, hhtml⟩ := Operation.runAll_versions
  obtain ⟨log, y, hrun', hleads⟩ := links_lead (fun _ => 0) 1 1 history
  obtain ⟨rfl, rfl⟩ := Prod.mk.inj (Option.some.inj (hrun.symm.trans hrun'))
  obtain ⟨tokens, hsplits, htargets⟩ := (hleads "lib-2" "A.java").2.2 _ html hfile hhtml
  refine ⟨_, x, html, tokens, hrun, hfile, hhtml, hsplits, ?_⟩
  rw [htargets, ← hlink]
  rfl

/-- A file with a declaration of its own, and a link in it that leads out of it. -/
theorem own_declaration_passed_over :
    ∃ history log x html tokens,
      Operation.runAll history ⟨⟨fun _ => 0, 1, {}⟩, 1⟩ = some (log, x) ∧
      x.store.DeclaredIn ⟨"X"⟩ "lib-2" "A.java" ∧
      x.store.renderHtml "lib-2" "A.java" = .ok html ∧ Splits html.toList tokens ∧
      "/lib-1/A.java#X" ∈ Markup.Html.targets tokens ∧
      "#" ++ encode "X" ∉ Markup.Html.targets tokens := by
  obtain ⟨x, hrun, hfile, hlink, html, hhtml⟩ := Operation.runAll_versions
  obtain ⟨tokens, hsplits, htargets⟩ :=
    Markup.Html.targets_of_render (Store.render_of_renderHtml hfile hhtml)
  have htarget : Markup.Html.targets tokens = ["/lib-1/A.java#X"] := by
    rw [htargets, SourceFile.inOrder_normal SourceFile.normalize_selfReferring, ← hlink]
    rfl
  refine ⟨_, _, x, html, tokens, hrun, ?_, hhtml, hsplits, ?_, ?_⟩
  · exact ⟨_, hfile, _, List.mem_cons_self, rfl⟩
  · rw [htarget]
    exact List.mem_singleton.2 rfl
  · rw [htarget]
    decide +kernel

end CrossRef
