import CrossRef.Proofs.Exchange
import CrossRef.Proofs.Library.Export
import CrossRef.Proofs.Markup.Html.Anchors

namespace CrossRef

open Markup (inOrder)
open Markup.Html (Anchored LinkOn Splits)
open Store (ReferenceRow)

/-- The rows of a file in an index: each of its references has one, and the line in it is that of
the last anchor in front of the reference's link, in the output of any source with the same normal
form. -/
structure Store.Locates (s : Store) (artifact path : String) (file : SourceFile) : Prop where
  normal : file.normalize = (file, none)
  rows : ∀ b, ((s.referencesTo b).filter fun row => row.artifact = artifact ∧ row.file = path).Perm
    ((file.referencesAt artifact path).filter fun row => row.target = b)
  links : ∀ source : SourceFile, source.normalize = (file, none) →
    (Text.LineTable.ofText source.text).lineCount < UInt32.size - 1 →
    ∀ link html, Markup.Html.render link source.text source.facts = .ok html →
      ∃ tokens, Splits html.toList tokens ∧
        ∀ earlier fact later b kind id, inOrder source.facts = earlier ++ fact :: later →
          fact.payload = .reference b kind id → fact.length ≠ 0 →
          let line := lineOf source.text fact.start
          ⟨b, kind, artifact, path, line, id⟩ ∈ s.referencesTo b ∧
            LinkOn link tokens earlier fact line

namespace Library

variable {l : Library} {artifact path : String} {file : SourceFile}

theorem content?_of_file (h : l.file artifact path = .ok file) :
    ∃ c, l.content? artifact = some c ∧ c.files.get? path = some (path, file) := by
  rw [Library.file] at h
  cases hget : (l.content? artifact).bind fun c => c.files.get? path with
  | none => simp [hget] at h
  | some f =>
    obtain ⟨c, hc, hf⟩ := Option.bind_eq_some_iff.1 hget
    obtain ⟨-, hpath⟩ := Catalog.mem_of_get? hf
    rw [hget, Option.elim_some] at h
    refine ⟨c, hc, ?_⟩
    rw [hf, ← hpath, ← Except.ok.inj h]

theorem referenceRows_in (h : l.file artifact path = .ok file) :
    (l.referenceRows.filter fun row => row.artifact = artifact ∧ row.file = path) =
      file.referencesAt artifact path := by
  obtain ⟨c, hc, hfile⟩ := content?_of_file h
  have hrows : ∀ f : String × SourceFile,
      ∀ row ∈ f.2.referencesAt artifact f.1, row.file = f.1 := by
    intro f row hrow
    obtain ⟨m, -, rfl⟩ := List.mem_map.1 hrow
    rfl
  have hkeep := filter_flatMap_of (p := fun row : ReferenceRow => row.file = path)
    (q := fun f => f.1 = path) c.files.toList fun f row hrow => by rw [hrows f row hrow]
  have hentry : (c.files.toList.filter fun f => f.1 = path) = (c.files.get? path).toList :=
    c.files.filter_eq_get? path
  have hsplit : (l.referenceRows.filter fun row => row.artifact = artifact ∧ row.file = path) =
      (l.referenceRows.filter fun row => row.artifact = artifact).filter
        fun row => row.file = path := by
    rw [List.filter_filter]
    apply List.filter_congr
    intro row _
    rw [← Bool.decide_and]
    exact decide_eq_decide.2 and_comm
  rw [hsplit, l.referenceRows_of, hc, Option.elim_some, Content.references, hkeep, hentry, hfile,
    Option.toList_some, List.flatMap_singleton]

theorem referencesTo_in (h : l.file artifact path = .ok file) (b : Binding) :
    ((l.referencesTo b).filter fun row => row.artifact = artifact ∧ row.file = path).Perm
      ((file.referencesAt artifact path).filter fun row => row.target = b) := by
  have hperm := (List.mergeSort_perm (l.referenceRows.filter fun row => row.target = b)
    ReferenceRow.precedes).filter fun row => row.artifact = artifact ∧ row.file = path
  rw [List.filter_comm, referenceRows_in h] at hperm
  exact hperm

end Library

theorem SourceFile.mem_referencesAt {source file : SourceFile}
    (h : source.normalize = (file, none)) {fact : Fact} (hmem : fact ∈ source.facts) {b : Binding}
    {kind : ReferenceKind} {id : UInt32} (hpayload : fact.payload = .reference b kind id)
    (artifact path : String) :
    ⟨b, kind, artifact, path, lineOf source.text fact.start, id⟩ ∈
      file.referencesAt artifact path := by
  have htext : file.text = source.text := (congrArg (fun out => out.1.text) h).symm
  have hmention : ⟨fact.start, b, kind, id⟩ ∈ source.mentions :=
    List.mem_filterMap.2 ⟨fact, hmem, by rw [hpayload]⟩
  rw [← htext]
  exact List.mem_map.2 ⟨_, (mentions_normalize h).mem_iff.2 hmention, rfl⟩

theorem Store.Answers.locates {s : Store} {l : Library} (h : s.Answers l) {artifact path : String}
    {file : SourceFile} (hfile : l.file artifact path = .ok file)
    (hnormal : file.normalize = (file, none)) : s.Locates artifact path file where
  normal := hnormal
  rows := by
    intro b
    rw [h.referencesTo]
    exact l.referencesTo_in hfile b
  links := by
    intro source hsource hlines link html hrender
    obtain ⟨tokens, htokens⟩ := Markup.Html.anchored_of_render hlines hrender
    refine ⟨tokens, htokens.splits, ?_⟩
    intro earlier fact later b kind id hsplit hpayload hlength
    have hmem : fact ∈ source.facts := by
      have hsorted : fact ∈ inOrder source.facts := by
        rw [hsplit]
        exact List.mem_append_right _ List.mem_cons_self
      exact List.mem_mergeSort.1 hsorted
    have hrow := SourceFile.mem_referencesAt hsource hmem hpayload artifact path
    have hfound := (h.referencesTo b ▸ l.referencesTo_in hfile b).mem_iff.2
      (List.mem_filter.2 ⟨hrow, decide_eq_true rfl⟩)
    have hlink := htokens.links earlier fact later hsplit hlength
    rw [Text.lineAt_ofText] at hlink
    exact ⟨List.mem_of_mem_filter hfound, hlink⟩

/-- However facts cut a text, the output has the anchors of the text alone: one for each line, in
order, and in front of a character those up to its line. The index tells the same: after any history
that begins with an empty index, the line of a reference is that of the last anchor in front of its
link. -/
theorem anchors_agree :
    (∀ link text facts html, (Text.LineTable.ofText text).lineCount < UInt32.size - 1 →
      Markup.Html.render link text facts = .ok html →
        ∃ tokens, Anchored link text facts html tokens) ∧
    ∀ key queueCapacity batchSize (history : List Operation),
      ∃ log x, Operation.runAll history ⟨⟨key, batchSize, {}⟩, queueCapacity⟩ = some (log, x) ∧
        ∀ artifact path file, x.store.file artifact path = .ok file →
          x.store.Locates artifact path file := by
  refine ⟨fun link text facts html => Markup.Html.anchored_of_render, ?_⟩
  intro key queueCapacity batchSize history
  obtain ⟨log, x, hrun, hholds, hsettled⟩ :=
    Operation.runAll_empty key queueCapacity batchSize history
  refine ⟨log, x, hrun, ?_⟩
  intro artifact path file hfile
  rw [hholds.answers.file] at hfile
  obtain ⟨c, hc, hget⟩ := Library.content?_of_file hfile
  have hnormal := (Library.settled_of_content? hsettled hc).normal _ (Catalog.mem_of_get? hget).1
  exact hholds.answers.locates hfile hnormal

/-- An index with one file, in which a reference begins at a newline and an empty style stands right
behind that. -/
theorem anchors_agree_newlines :
    let file : SourceFile :=
      ⟨"a\n\nb\n", [⟨1, 3, .reference ⟨"p.T"⟩ .cast 0⟩, ⟨2, 0, .style ⟨["k"], by decide⟩⟩]⟩
    (∃ html, Markup.Html.render Binding.text file.text file.facts = .ok html ∧
      ∃ tokens, Anchored Binding.text file.text file.facts html tokens) ∧
    ∃ x : Indexer, x.store.file "a" "f" = .ok file ∧ x.store.Locates "a" "f" file := by
  intro file
  have hsorted : inOrder file.facts = file.facts := List.mergeSort_of_pairwise (by decide)
  have hrender : Markup.Html.render Binding.text file.text file.facts = .ok
      ("<a href=\"#1\" id=\"1\" class=\"line\" data-line=\"1\"></a>a" ++
        "<a href=\"p.T\" class=\"ref\" data-kind=\"14\" data-ref-id=\"0\">\n" ++
        "<span class=\"k\"></span>" ++
        "<a href=\"#2\" id=\"2\" class=\"line\" data-line=\"2\"></a>\n" ++
        "<a href=\"#3\" id=\"3\" class=\"line\" data-line=\"3\"></a>b</a>\n" ++
        "<a href=\"#4\" id=\"4\" class=\"line\" data-line=\"4\"></a>") := by
    unfold Markup.Html.render Markup.render
    rw [hsorted]
    decide +kernel
  refine ⟨⟨_, hrender, anchors_agree.1 _ _ _ _ (by decide +kernel) hrender⟩, ?_⟩
  have hnormal : file.normalize = (file, none) := SourceFile.normalize_of_settled (by decide) rfl
  let d : Dump := ⟨"a", [], [], ⟨[("f", file)], List.pairwise_singleton _ _⟩⟩
  let empty : Indexer := ⟨⟨fun _ => 0, 1, {}⟩, 1⟩
  obtain ⟨summary, hok⟩ := ((Ingest.production_runs d).succeeds_iff empty).2
    ⟨by simp [d], by simp [d, hnormal], by
      simp [d, Ingest.declared, Ingest.baked, hnormal, SourceFile.declarations, file]⟩
  rcases Ingest.deliver_cases empty (Ingest.production_runs d).delivers with
    ⟨fault, hfault⟩ | ⟨summary', y, hdeliver, hrenewed⟩
  · rw [hfault] at hok
    simp at hok
  have hstep : Step.file "f" file ∈ Ingest.stepsOf d := by simp [d, Ingest.stepsOf]
  have hfile := hrenewed.file hstep
  rw [hnormal] at hfile
  obtain ⟨log, x, hrun, hlocates⟩ := anchors_agree.2 (fun _ => 0) 1 1 [.ingestDump d true]
  have hingest : (empty.ingestDump d true).2 = y := by
    rw [Indexer.ingestDump, if_pos rfl, Ingest.ingest_eq_deliver, hdeliver]
  simp only [Operation.runAll, Operation.run, Option.bind_some, Option.map_some, Option.some.injEq,
    Prod.mk.injEq] at hrun
  obtain rfl : y = x := hingest.symm.trans hrun.2
  exact ⟨y, hfile, hlocates "a" "f" file hfile⟩

end CrossRef
