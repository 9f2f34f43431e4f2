import CrossRef.Proofs.Fact.Normal
import CrossRef.Proofs.Ingest.Delivery

namespace CrossRef.Ingest

open Feed (Call Production)

/-- A file of a dump in normal order. -/
def baked (f : String × SourceFile) : SourceFile := f.2.normalize.1

/-- The calls that the producer of one file of a dump sends. -/
def line (d : Dump) (f : String × SourceFile) : List Call := rows d.id f.1 (baked f)

/-- The calls in front of the files: what a dump depends on and is called. -/
def preface (d : Dump) : List Call :=
  d.dependencies.map (.insertDependency d.id) ++ d.aliases.map (.insertAlias d.id)

/-- The files of a dump that can be brought into normal order. -/
def sound (d : Dump) : List (String × SourceFile) :=
  d.files.toList.filter fun f => f.2.normalize.2.isNone

/-- What comes of a dump with one producer per file. Each counts its file when it is through, in
whatever order; a file without normal order stops all producers wherever they are. -/
inductive Runs (d : Dump) : Production Summary → Prop
  | completed {out : List Call} {order : List (String × SourceFile)} :
      (∀ f ∈ d.files.toList, f.2.normalize.2 = none) →
      Woven (d.files.toList.map (line d)) out → order.Perm d.files.toList →
      Runs d ⟨opening d.id ++ (preface d ++ out),
        close (order.foldl (fun s f => summarize s (baked f)) { artifact := d.id })⟩
  | stopped {sent out : List Call} {f : String × SourceFile} {fault : Fault} :
      f ∈ d.files.toList → f.2.normalize.2 = some fault →
      Woven ((sound d).map (line d)) out → sent <+: preface d ++ out →
      Runs d ⟨opening d.id ++ sent, .error fault⟩

/-- The bindings that a dump declares. -/
def declared (d : Dump) : List Binding :=
  d.files.toList.flatMap fun f => (baked f).declarations.map Prod.snd

/-- The steps of a dump up to some of its files. -/
def stepsUpTo (d : Dump) (files : List (String × SourceFile)) : List Step :=
  d.dependencies.map .dependency ++ d.aliases.map .name ++
    files.map fun (path, file) => .file path file

theorem stepsOf_eq (d : Dump) : stepsOf d = stepsUpTo d d.files.toList := rfl

theorem map_calls_stepsUpTo (d : Dump) (files : List (String × SourceFile)) :
    (stepsUpTo d files).map (Step.calls d.id) =
      (preface d).map (fun call => [call]) ++ files.map (line d) := by
  simp [stepsUpTo, preface, Step.calls, Function.comp_def, line, baked]

theorem flatMap_calls_stepsUpTo (d : Dump) (files : List (String × SourceFile)) :
    (stepsUpTo d files).flatMap (Step.calls d.id) = preface d ++ files.flatMap (line d) := by
  rw [List.flatMap_def, map_calls_stepsUpTo, List.flatten_append, ← List.flatMap_def,
    ← List.flatMap_def, List.flatMap_singleton']

theorem filterMap_preface (d : Dump) :
    (preface d).filterMap Call.file? = [] ∧ (preface d).filterMap Call.declaration? = [] ∧
      (preface d).filterMap Call.reference? = [] := by
  simp [preface, Call.file?, Call.declaration?, Call.reference?]

theorem plus_preface (s : Summary) (d : Dump) (out : List Call) :
    plus s (preface d ++ out) = plus s out := by
  obtain ⟨hfile, hdeclaration, hreference⟩ := filterMap_preface d
  simp [plus, hfile, hdeclaration, hreference]

theorem paths_nodup (d : Dump) : (d.files.toList.map Prod.fst).Nodup := by
  have hne : ∀ {f g : String × SourceFile}, f.1 < g.1 → f.1 ≠ g.1 := by
    intro f g hlt he
    rw [he] at hlt
    exact String.lt_irrefl _ hlt
  exact List.pairwise_map.2 (d.files.ascending.imp hne)

/-- A dump is in conflict only where it declares a binding twice. -/
theorem free_iff (d : Dump) :
    Store.conflict? [] [] ((stepsOf d).flatMap (Step.calls d.id)) = none ↔ (declared d).Nodup := by
  obtain ⟨hfile, hdeclaration, -⟩ := filterMap_preface d
  have hpaths : ((((stepsOf d).flatMap (Step.calls d.id)).filterMap Call.file?).map
      fun f => f.2.path) = d.files.toList.map Prod.fst := by
    rw [stepsOf_eq, flatMap_calls_stepsUpTo, List.filterMap_append, hfile, List.nil_append,
      List.filterMap_flatMap, List.map_flatMap]
    simp [line, file?_rows, sourceRow, List.map_eq_flatMap]
  have hbindings : (((stepsOf d).flatMap (Step.calls d.id)).filterMap Call.declaration?).map
      Store.DeclarationRow.binding = declared d := by
    rw [stepsOf_eq, flatMap_calls_stepsUpTo, List.filterMap_append, hdeclaration, List.nil_append,
      List.filterMap_flatMap, List.map_flatMap]
    simp [line, declaration?_rows, declarationRows, declared, Function.comp_def]
  rw [Store.conflict?_eq_none_iff, hpaths, hbindings]
  simp [paths_nodup]

/-- The counters tell the same in whatever order they are written. -/
theorem foldl_summarize (d : Dump) (order : List (String × SourceFile)) (s : Summary) :
    order.foldl (fun s f => summarize s (baked f)) s = plus s (order.flatMap (line d)) := by
  induction order generalizing s with
  | nil => rfl
  | cons f order ih =>
    rw [List.foldl_cons, ih, List.flatMap_cons, plus_append]
    congr 1
    simp [plus, summarize, line, file?_rows, declaration?_rows, reference?_rows, declarationRows,
      referenceRows]

theorem fault?_stepsUpTo (d : Dump) (files : List (String × SourceFile))
    (h : ∀ f ∈ files, f.2.normalize.2 = none) :
    ∀ step ∈ stepsUpTo d files, ∀ any, step.fault? d.id any = none := by
  intro step hstep any
  simp only [stepsUpTo, List.mem_append, List.mem_map] at hstep
  rcases hstep with (⟨_, _, rfl⟩ | ⟨_, _, rfl⟩) | ⟨f, hf, rfl⟩
  · rfl
  · rfl
  · exact h f hf

section Completed

variable {d : Dump} {out : List Call} (hw : Woven (d.files.toList.map (line d)) out)
include hw

theorem woven_stepsOf : Woven ((stepsOf d).map (Step.calls d.id)) (preface d ++ out) := by
  rw [stepsOf_eq, map_calls_stepsUpTo]
  exact hw.singletons _

theorem perm_flatMap_line : (d.files.toList.flatMap (line d)).Perm out := by
  rw [List.flatMap_def]
  exact hw.perm.symm

theorem foldl_order {order : List (String × SourceFile)} (horder : order.Perm d.files.toList) :
    order.foldl (fun s f => summarize s (baked f)) { artifact := d.id } =
      plus { artifact := d.id } (preface d ++ out) := by
  rw [foldl_summarize d, plus_preface]
  exact plus_perm _ ((horder.flatMap_right _).trans (perm_flatMap_line hw))

theorem files_plus : (plus { artifact := d.id } (preface d ++ out)).files = d.files.toList.length := by
  rw [plus_preface, ← plus_perm _ (perm_flatMap_line hw)]
  simp [plus, List.filterMap_flatMap, line, file?_rows]

end Completed

theorem Runs.delivers {d : Dump} {production : Production Summary} (h : Runs d production) :
    Delivers d.id (stepsOf d) production := by
  cases h with
  | stopped _ _ _ _ => exact .broken _ _
  | completed hall hw horder =>
    rw [foldl_order hw horder]
    exact .whole (fun step hstep => fault?_stepsUpTo d _ hall step hstep true) (woven_stepsOf hw)

theorem upToFault_append (artifact : String) (any : Bool) (before rest : List Step)
    (h : ∀ step ∈ before, ∀ any, step.fault? artifact any = none) :
    ∃ any', upToFault artifact any (before ++ rest) =
      (before ++ (upToFault artifact any' rest).1, (upToFault artifact any' rest).2) := by
  induction before generalizing any with
  | nil => exact ⟨any, rfl⟩
  | cons step before ih =>
    obtain ⟨any', hrest⟩ := ih (any || step.isFile) fun s hs => h s (List.mem_cons_of_mem _ hs)
    refine ⟨any', ?_⟩
    rw [List.cons_append, upToFault, h step List.mem_cons_self any, hrest]
    rfl

/-- File after file is one of the ways in which a dump may run. -/
theorem production_runs (d : Dump) : Runs d (production d.id (stepsOf d)) := by
  rw [production_eq]
  cases hfind : d.files.toList.find? fun f => f.2.normalize.2.isSome with
  | none =>
    have hall : ∀ f ∈ d.files.toList, f.2.normalize.2 = none := by
      intro f hf
      simpa using List.find?_eq_none.1 hfind f hf
    obtain ⟨any, hsteps⟩ := upToFault_append d.id false (stepsUpTo d d.files.toList) []
      (fault?_stepsUpTo d _ hall)
    rw [List.append_nil, upToFault, List.append_nil] at hsteps
    rw [stepsOf_eq, hsteps]
    simp only
    rw [flatMap_calls_stepsUpTo, plus_preface, ← foldl_summarize]
    exact .completed hall (.in_a_row _) (.refl _)
  | some f =>
    obtain ⟨hf, before, behind, hsplit, hbefore⟩ := List.find?_eq_some_iff_append.1 hfind
    obtain ⟨fault, hfault⟩ := Option.isSome_iff_exists.1 hf
    have hsound : ∀ g ∈ before, g.2.normalize.2 = none := by
      intro g hg
      simpa using hbefore g hg
    have hsteps : stepsOf d = stepsUpTo d before ++
        .file f.1 f.2 :: behind.map fun (path, file) => .file path file := by
      simp [stepsOf, stepsUpTo, hsplit]
    obtain ⟨any, hrun⟩ := upToFault_append d.id false (stepsUpTo d before)
      (.file f.1 f.2 :: behind.map fun (path, file) => .file path file)
      (fault?_stepsUpTo d _ hsound)
    have hstop : upToFault d.id any
        (.file f.1 f.2 :: behind.map fun (path, file) => .file path file) = ([], some fault) := by
      simp only [upToFault, Step.fault?, hfault]
    rw [hsteps, hrun, hstop]
    simp only [List.append_nil]
    rw [flatMap_calls_stepsUpTo]
    refine .stopped (hsplit ▸ List.mem_append_right _ List.mem_cons_self) hfault (.in_a_row _) ?_
    have hkeep : before.filter (fun f => f.2.normalize.2.isNone) = before :=
      List.filter_eq_self.2 fun g hg => by simp [hsound g hg]
    rw [sound, hsplit, List.filter_append, hkeep, ← List.flatMap_def, List.flatMap_append,
      ← List.append_assoc]
    exact List.prefix_append _ _

theorem Runs.succeeds_iff {d : Dump} {production : Production Summary} (h : Runs d production)
    (x : Indexer) :
    (∃ summary, (deliver x d.id production).1 = .ok summary) ↔
      d.files.toList ≠ [] ∧ (∀ f ∈ d.files.toList, f.2.normalize.2 = none) ∧ (declared d).Nodup := by
  constructor
  · rintro ⟨summary, hok⟩
    rcases deliver_cases x h.delivers with ⟨fault, hfault⟩ | ⟨summary', y, hdeliver, hy⟩
    · rw [hfault] at hok
      simp at hok
    · have hfiles : d.files.toList ≠ [] := by
        intro hnil
        apply hy.files
        rw [hy.counted, stepsOf_eq, flatMap_calls_stepsUpTo, plus_preface, hnil]
        rfl
      have hall : ∀ f ∈ d.files.toList, f.2.normalize.2 = none := by
        intro f hf
        have hstep : Step.file f.1 f.2 ∈ stepsOf d :=
          List.mem_append_right _ (List.mem_map_of_mem hf)
        exact hy.whole _ hstep
      exact ⟨hfiles, hall, (free_iff d).1 hy.free⟩
  · rintro ⟨hfiles, hall, hdeclared⟩
    cases h with
    | @stopped sent out f fault hf hfault =>
      rw [hall f hf] at hfault
      simp at hfault
    | @completed out order _ hw horder =>
      have hperm : ((stepsOf d).flatMap (Step.calls d.id)).Perm (preface d ++ out) := by
        rw [stepsOf_eq, flatMap_calls_stepsUpTo]
        exact (perm_flatMap_line hw).append_left _
      have hsome : (plus { artifact := d.id } (preface d ++ out)).files ≠ 0 := by
        rw [files_plus hw]
        simpa using hfiles
      rw [foldl_order hw horder, deliver_whole x (woven_stepsOf hw),
        conflict?_perm hperm ((free_iff d).2 hdeclared), close, if_neg hsome]
      exact ⟨_, rfl⟩

/-- Whatever the weave of the files: a dump that is not current is ingested exactly when it has a
file, all its files have a normal order and no binding is declared twice; where it is not, nothing
changes, and where it is, it gives the answers that it gives file after file. -/
theorem dump_answers (x : Indexer) (d : Dump) (force : Bool)
    (hcurrent : force = true ∨ x.store.needsRecompile d.id compileVersion = true)
    (production : Production Summary) (h : Runs d production) :
    let run := deliver x d.id production
    ((∃ summary, run.1 = .ok summary) ↔
      d.files.toList ≠ [] ∧ (∀ f ∈ d.files.toList, f.2.normalize.2 = none) ∧ (declared d).Nodup) ∧
    (∀ fault, run.1 = .error fault → run.2 = x) ∧
    ∀ summary, run.1 = .ok summary →
      (x.ingestDump d force).1 = .ok (.indexed summary) ∧
      Store.SameAnswers run.2.store (x.ingestDump d force).2.store ∧
      ∃ status, run.2.store.status d.id = .ok status ∧ summary.files = status.files ∧
        summary.declarations = status.declarations ∧ summary.references = status.references := by
  intro run
  refine ⟨h.succeeds_iff x, ?_, ?_⟩
  · intro fault hfault
    rcases deliver_cases x h.delivers with ⟨fault', hfault'⟩ | ⟨summary, y, hdeliver, -⟩
    · simp [run, hfault']
    · simp [run, hdeliver] at hfault
  · intro summary hok
    have hplain : x.ingestDump d force = ((x.ingest d.id (stepsOf d)).1.map .indexed,
        (x.ingest d.id (stepsOf d)).2) := by
      unfold Indexer.ingestDump Indexer.ingestIfStale
      rcases hcurrent with hforce | hstale
      · rw [if_pos hforce]
      · rw [if_pos hstale, ite_self]
    have hsound := (h.succeeds_iff x).1 ⟨summary, hok⟩
    obtain ⟨summary', hok'⟩ := ((production_runs d).succeeds_iff x).2 hsound
    rcases deliver_cases x h.delivers with ⟨fault, hfault⟩ | ⟨s₁, y₁, hy₁, hr₁⟩
    · simp [run, hfault] at hok
    rcases deliver_cases x (production_delivers d.id (stepsOf d)) with
      ⟨fault, hfault⟩ | ⟨s₂, y₂, hy₂, hr₂⟩
    · simp [hfault] at hok'
    have hcounted : s₂ = s₁ := hr₂.counted.trans hr₁.counted.symm
    have htables : y₁.store.tables.Alike y₂.store.tables := hr₁.tables.trans hr₂.tables.symm
    have hkey : y₁.store.key = y₂.store.key := hr₁.key.trans hr₂.key.symm
    simp only [run, hy₁] at hok ⊢
    obtain rfl : s₁ = summary := by simpa using hok
    rw [hplain, ingest_eq_deliver, hy₂, hcounted]
    exact ⟨rfl, Store.sameAnswers_of_alike htables hkey, hr₁.status⟩

/-- A file that declares a binding and refers to it. -/
def declaring : String × SourceFile :=
  ("x", ⟨"XX", [⟨0, 1, .declaration ⟨"X"⟩⟩, ⟨1, 1, .reference ⟨"X"⟩ .cast 0⟩]⟩)

/-- A file that refers to it twice on one line; nothing but their order tells the two apart. -/
def referring : String × SourceFile :=
  ("y", ⟨"YXX", [⟨0, 1, .declaration ⟨"Y"⟩⟩, ⟨1, 1, .reference ⟨"X"⟩ .methodCall 0⟩,
    ⟨2, 1, .reference ⟨"X"⟩ .fieldRead 0⟩]⟩)

def sharing : Dump := ⟨"a", ["b"], ["c"], ⟨[declaring, referring], by decide⟩⟩

/-- The calls of the two files, taken now from the one and now from the other. -/
def entwined : List Call :=
  [.insertFile "a" (sourceRow "y" referring.2), .insertFile "a" (sourceRow "x" declaring.2),
    .insertDeclaration ⟨"a", ⟨"Y"⟩, "y", true⟩,
    .insertReference ⟨⟨"X"⟩, .methodCall, "a", "y", 1, 0⟩,
    .insertDeclaration ⟨"a", ⟨"X"⟩, "x", true⟩, .insertReference ⟨⟨"X"⟩, .cast, "a", "x", 1, 0⟩,
    .insertReference ⟨⟨"X"⟩, .fieldRead, "a", "y", 1, 0⟩]

theorem normalize_declaring : declaring.2.normalize = (declaring.2, none) :=
  SourceFile.normalize_of_settled (by decide) rfl

theorem normalize_referring : referring.2.normalize = (referring.2, none) :=
  SourceFile.normalize_of_settled (by decide) rfl

theorem baked_declaring : baked declaring = declaring.2 := by
  rw [baked, normalize_declaring]

theorem baked_referring : baked referring = referring.2 := by
  rw [baked, normalize_referring]

theorem line_declaring : line sharing declaring =
    [.insertFile "a" (sourceRow "x" declaring.2), .insertDeclaration ⟨"a", ⟨"X"⟩, "x", true⟩,
      .insertReference ⟨⟨"X"⟩, .cast, "a", "x", 1, 0⟩] := by
  have hrows : referenceRows "a" "x" declaring.2 = [⟨⟨"X"⟩, .cast, "a", "x", 1, 0⟩] := by
    decide +kernel
  rw [line, baked_declaring, rows_eq]
  simp only [sharing, declaring] at hrows ⊢
  rw [hrows]
  rfl

theorem line_referring : line sharing referring =
    [.insertFile "a" (sourceRow "y" referring.2), .insertDeclaration ⟨"a", ⟨"Y"⟩, "y", true⟩,
      .insertReference ⟨⟨"X"⟩, .methodCall, "a", "y", 1, 0⟩,
      .insertReference ⟨⟨"X"⟩, .fieldRead, "a", "y", 1, 0⟩] := by
  have hrows : referenceRows "a" "y" referring.2 =
      [⟨⟨"X"⟩, .methodCall, "a", "y", 1, 0⟩, ⟨⟨"X"⟩, .fieldRead, "a", "y", 1, 0⟩] := by
    decide +kernel
  rw [line, baked_referring, rows_eq]
  simp only [sharing, referring] at hrows ⊢
  rw [hrows]
  rfl

theorem woven_entwined : Woven (sharing.files.toList.map (line sharing)) entwined := by
  change Woven [line sharing declaring, line sharing referring] entwined
  rw [line_declaring, line_referring]
  have hend : Woven ([[], []] : List (List Call)) [] := .done (by simp)
  exact hend.take_right.take_left.take_left.take_right.take_right.take_left.take_right

theorem references_entwined : entwined.filterMap Call.reference? ≠
    (sharing.files.toList.flatMap (line sharing)).filterMap Call.reference? := by
  change _ ≠ (line sharing declaring ++ (line sharing referring ++ [])).filterMap Call.reference?
  rw [line_declaring, line_referring]
  decide +kernel

theorem declared_sharing : declared sharing = [⟨"X"⟩, ⟨"Y"⟩] := by
  change (baked declaring).declarations.map Prod.snd ++
    ((baked referring).declarations.map Prod.snd ++ []) = _
  rw [baked_declaring, baked_referring]
  rfl

theorem plus_sharing : plus { artifact := "a" } ((stepsOf sharing).flatMap (Step.calls "a")) =
    ⟨"a", 2, 2, 3⟩ := by
  have hsteps := flatMap_calls_stepsUpTo sharing sharing.files.toList
  change (stepsOf sharing).flatMap (Step.calls "a") = _ at hsteps
  rw [hsteps, plus_preface, ← foldl_summarize]
  change summarize (summarize { artifact := "a" } (baked declaring)) (baked referring) = _
  rw [baked_declaring, baked_referring]
  rfl

/-- Two files of one dump whose references to a binding are stored in another order than file after
file. -/
theorem dump_answers_entwined :
    ∃ production : Production Summary,
      let run := deliver ⟨{}, 0⟩ "a" production
      Runs sharing production ∧ production.calls = opening "a" ++ (preface sharing ++ entwined) ∧
      entwined.filterMap Call.reference? ≠
        (sharing.files.toList.flatMap (line sharing)).filterMap Call.reference? ∧
      run.1 = .ok ⟨"a", 2, 2, 3⟩ ∧
      (Indexer.ingestDump ⟨{}, 0⟩ sharing false).1 = .ok (.indexed ⟨"a", 2, 2, 3⟩) ∧
      Store.SameAnswers run.2.store (Indexer.ingestDump ⟨{}, 0⟩ sharing false).2.store ∧
      ∃ status, run.2.store.status "a" = .ok status ∧ status.files = 2 ∧
        status.declarations = 2 ∧ status.references = 3 := by
  have hall : ∀ f ∈ sharing.files.toList, f.2.normalize.2 = none := by
    simp [sharing, normalize_declaring, normalize_referring]
  have hdeclared : (declared sharing).Nodup := by
    rw [declared_sharing]
    decide
  have hruns := Runs.completed hall woven_entwined (List.Perm.swap declaring referring [])
  obtain ⟨hiff, -, hdone⟩ := dump_answers ⟨{}, 0⟩ sharing false (.inr rfl) _ hruns
  obtain ⟨summary, hok⟩ := hiff.2 ⟨by simp [sharing], hall, hdeclared⟩
  obtain ⟨hplain, hsame, status, hstatus, hfiles, hdeclarations, hreferences⟩ := hdone summary hok
  have hsummary : summary = ⟨"a", 2, 2, 3⟩ := by
    rcases deliver_cases ⟨{}, 0⟩ hruns.delivers with ⟨fault, hfault⟩ | ⟨counted, y, hdeliver, hy⟩
    · rw [hfault] at hok
      simp at hok
    · rw [hdeliver] at hok
      obtain rfl : counted = summary := Except.ok.inj hok
      exact hy.counted.trans plus_sharing
  subst hsummary
  exact ⟨_, hruns, rfl, references_entwined, hok, hplain, hsame, status, hstatus, hfiles.symm,
    hdeclarations.symm, hreferences.symm⟩

end CrossRef.Ingest
