import CrossRef.Proofs.Store.Image
import CrossRef.Proofs.Text.Split
import CrossRef.Store.Opening
import Mathlib.Data.Option.Basic

namespace CrossRef

/-- Everything on a disk, by name. -/
abbrev Files := Path → Found

namespace Files

def put (files : Files) (path : Path) (found : Found) : Files :=
  fun p => if p = path then found else files p

/-- A disk on which every file can be written. -/
def disk (home : Path) : Disk (StateM Files) where
  home := home
  read path := fun files => (files path, files)
  write path bytes := fun files => (true, files.put path (.content bytes))
  remove path := fun files => ((), files.put path .nothing)

end Files

namespace Store

/-- What comes of actions on a disk, and what is on the disk then. -/
def carryOut {α : Type} (action : OptionT (StateM Files) α) (files : Files) : Option α × Files :=
  action.run files

section CarryOut

variable {α β : Type} {files : Files} {home : Path}

@[simp] theorem carryOut_pure (a : α) : carryOut (pure a) files = (some a, files) := rfl

@[simp] theorem carryOut_bind (action : OptionT (StateM Files) α)
    (next : α → OptionT (StateM Files) β) :
    carryOut (action >>= next) files =
      (carryOut action files).1.elim (none, (carryOut action files).2) fun a =>
        carryOut (next a) (carryOut action files).2 := by
  simp only [carryOut, OptionT.run, bind, OptionT.bind, StateT.bind, OptionT.mk]
  rcases action files with ⟨result, files'⟩
  cases result <;> rfl

@[simp] theorem carryOut_map (f : α → β) (action : OptionT (StateM Files) α) :
    carryOut (f <$> action) files =
      ((carryOut action files).1.map f, (carryOut action files).2) := by
  rw [← bind_pure_comp, carryOut_bind]
  cases (carryOut action files).1 <;> rfl

@[simp] theorem carryOut_guard (p : Prop) [Decidable p] :
    carryOut (guard p) files = (if p then some () else none, files) := by
  unfold guard
  split <;> rfl

@[simp] theorem carryOut_read (path : Path) :
    carryOut (liftM ((Files.disk home).read path)) files = (some (files path), files) := rfl

@[simp] theorem carryOut_write (path : Path) (bytes : ByteArray) :
    carryOut (liftM ((Files.disk home).write path bytes)) files =
      (some true, files.put path (.content bytes)) := rfl

@[simp] theorem carryOut_remove (path : Path) :
    carryOut (liftM ((Files.disk home).remove path)) files =
      (some (), files.put path .nothing) := rfl

end CarryOut

section Alone

variable {file : Path} {files : Files} {t : Tables} (home : Path)

/-- Nothing was left beside the file, and there can be a journal. -/
structure Alone (file : Path) (files : Files) : Prop where
  journal : files (Companion.journal.path file) = .nothing
  log : files (Companion.log.path file) = .nothing
  logIndex : files (Companion.logIndex.path file) = .nothing
  short : (Companion.journal.path file).name.length ≤ Path.elementLimit

theorem companion_ne (c : Companion) (file : Path) : c.path file ≠ file := by
  cases c <;> simp [Companion.path, Companion.ending, Path.ofString, Text.bytes]

theorem Alone.put (h : Alone file files) (found : Found) : Alone file (files.put file found) := by
  have hkeep : ∀ c : Companion, files.put file found (c.path file) = files (c.path file) := by
    intro c
    rw [Files.put, if_neg (companion_ne c file)]
  exact ⟨(hkeep .journal).trans h.journal, (hkeep .log).trans h.log,
    (hkeep .logIndex).trans h.logIndex, h.short⟩

theorem convert_of_alone (h : Alone file files) (image : Image) (logged : Bool) :
    (carryOut (convert (Files.disk home) file image logged) files).1 = some () ∧
      Alone file (carryOut (convert (Files.disk home) file image logged) files).2 := by
  have hjournal : carryOut (useJournal (Files.disk home) file) files = (some (), files) := by
    simp [useJournal, h.journal, h.short]
  unfold convert
  split
  · simp [hjournal, h.put]
  · exact ⟨rfl, h⟩

theorem update_of_alone (h : Alone file files) (held : ByteArray) (image : Image) :
    (carryOut (update (Files.disk home) file true held image) files).1 = some () ∧
      Alone file (carryOut (update (Files.disk home) file true held image) files).2 := by
  unfold update
  split
  · simp [h.put]
  · exact ⟨rfl, h⟩

theorem settle_of_alone (h : Alone file files) (held : ByteArray) (logged : Bool) :
    (carryOut (settle (Files.disk home) file {} held ⟨logged, some t⟩ false) files).1 =
      some (⟨file, true⟩, t) := by
  obtain ⟨hconvert, hconverted⟩ := convert_of_alone home h ⟨logged, some t⟩ true
  obtain ⟨hupdate, -⟩ := update_of_alone home hconverted held ⟨true, some t⟩
  simp [settle, hconvert, hupdate, logIsUsable, hconverted.logIndex, dropLog]

/-- An index is opened with the tables that its file holds. -/
theorem openFile_of_alone {path : Path} {key : Binding → Int64} {bytes : ByteArray} {logged : Bool}
    (hpath : carryOut (resolve (Files.disk home) path) files = (some file, files))
    (hfile : files file = .content bytes) (h : Alone file files)
    (himage : Image.ofFile? key bytes = some ⟨logged, some t⟩) :
    (carryOut (openFile (Files.disk home) path {} key) files).1 = some (⟨file, true⟩, t) := by
  have hcontent : carryOut (contentOf (Files.disk home) file true) files = (some bytes, files) := by
    simp [contentOf, hfile]
  have hjournal : carryOut (dropJournal (Files.disk home) file bytes) files = (some (), files) := by
    simp [dropJournal, h.journal]
  have hlog : carryOut (adoptLog (Files.disk home) file .shared bytes) files =
      (some false, files) := by
    simp [adoptLog, h.log]
  have hsettle := settle_of_alone home (t := t) h bytes logged
  simp [openFile, hpath, hcontent, hjournal, hlog, himage, hsettle]

end Alone

/-- Where an index is kept: a name that leads to its file whatever the file holds, and what else is
on the disk. -/
structure Place where
  home : Path
  path : Path
  file : Path
  files : Files
  leads : ∀ bytes, carryOut (resolve (Files.disk home) path) (files.put file (.content bytes)) =
    (some file, files.put file (.content bytes))
  alone : Alone file files

/-- Keeps tables at a place and opens it again under its name. -/
def Place.reopen (place : Place) (key : Binding → Int64) (logged : Bool) (t : Tables) :
    Option Tables :=
  let kept := (OpenFile.keep (Files.disk place.home) t ⟨place.file, logged⟩ place.files).2
  (carryOut (openFile (Files.disk place.home) place.path {} key) kept).1.map Prod.snd

theorem Place.reopen_eq (place : Place) {key : Binding → Int64} {t : Tables} (h : t.KeyedBy key)
    (logged : Bool) : place.reopen key logged t = some t := by
  have hkept : (OpenFile.keep (Files.disk place.home) t ⟨place.file, logged⟩ place.files).2 =
      place.files.put place.file (.content (Image.encode ⟨logged, some t⟩)) := rfl
  have hfile : place.files.put place.file (.content (Image.encode ⟨logged, some t⟩)) place.file =
      .content (Image.encode ⟨logged, some t⟩) := if_pos rfl
  have hopen := openFile_of_alone place.home (place.leads _) hfile (place.alone.put _)
    (Image.ofFile?_encode h logged)
  rw [Place.reopen, hkept, hopen]
  rfl

theorem split_slashed {es : List Path} (h : ∀ e ∈ es, Path.slash ∉ e) :
    Text.split Path.slash (es.flatMap (Path.slash :: ·)) = [] :: es := by
  induction es with
  | nil => rfl
  | cons e es ih =>
    have hes := ih fun e' he' => h e' (List.mem_cons_of_mem _ he')
    have he := Text.split_append (h e List.mem_cons_self) hes
    rw [List.flatMap_cons, List.cons_append, Text.split, if_pos rfl, he, List.append_nil]

/-- An element that means itself. -/
def IsPlain (e : Path) : Prop :=
  e ≠ [] ∧ e ≠ .ofString "." ∧ e ≠ .ofString ".." ∧ Path.slash ∉ e ∧ e.length ≤ Path.elementLimit

theorem length_ofElements_append (above below : List Path) :
    (Path.ofElements (above ++ below)).length =
      (Path.ofElements above).length + (Path.ofElements below).length := by
  simp [Path.ofElements, Nat.add_comm]

theorem eq_nil_of_ofElements {place : List Path} (h : Path.ofElements place = []) : place = [] := by
  cases hplace : place.reverse with
  | nil => exact List.reverse_eq_nil_iff.1 hplace
  | cons e es => simp [Path.ofElements, hplace] at h

theorem follow_plain (home : Path) (files : Files) (es place : List Path)
    (hplain : ∀ e ∈ es, IsPlain e)
    (hlen : (Path.ofElements (es.reverse ++ place)).length ≤ pathLimit)
    (hopen : ∀ above, above <:+ es.reverse ++ place → above ≠ es.reverse ++ place →
      ∀ bytes, files (.ofElements above) ≠ .content bytes) :
    carryOut (follow (Files.disk home) place es) files = (some (es.reverse ++ place), files) := by
  induction es generalizing place with
  | nil => rfl
  | cons e es ih =>
    obtain ⟨hnil, hdot, hdots, -, hlimit⟩ := hplain e List.mem_cons_self
    have hassoc : (e :: es).reverse ++ place = es.reverse ++ e :: place := by simp
    rw [hassoc] at hlen hopen ⊢
    have hnext := ih (e :: place) (fun e' he' => hplain e' (List.mem_cons_of_mem _ he')) hlen hopen
    have hshort : (Path.ofElements (e :: place)).length ≤ pathLimit := by
      rw [length_ofElements_append] at hlen
      omega
    have habove := hopen place ((List.suffix_cons e place).trans (List.suffix_append _ _)) (by
      intro he
      have hlength := congrArg List.length he
      simp at hlength
      omega)
    rw [follow, if_neg (by simp [hnil, hdot]), if_neg hdots]
    cases hfound : files (.ofElements place) with
    | content bytes => exact absurd hfound (habove bytes)
    | nothing => simp [hlimit, hshort, hfound, hnext]
    | unreadable => simp [hlimit, hshort, hfound, hnext]

theorem resolve_plain (home : Path) (files : Files) (place : List Path) (hne : place ≠ [])
    (hplain : ∀ e ∈ place, IsPlain e) (hlen : (Path.ofElements place).length ≤ filePathLimit)
    (hopen : ∀ above, above <:+ place → above ≠ place →
      ∀ bytes, files (.ofElements above) ≠ .content bytes) :
    carryOut (resolve (Files.disk home) (.ofElements place)) files =
      (some (.ofElements place), files) := by
  have helements : (Path.ofElements place).elements = [] :: place.reverse :=
    split_slashed fun e he => (hplain e (List.mem_reverse.1 he)).2.2.2.1
  have hhead : (Path.ofElements place).head? = some Path.slash := by
    obtain ⟨e, es, hes⟩ := List.exists_cons_of_ne_nil (List.reverse_ne_nil_iff.2 hne)
    rw [Path.ofElements, hes]
    rfl
  have hlimit : filePathLimit ≤ pathLimit := by decide
  have hfollow := follow_plain home files place.reverse []
    (fun e he => hplain e (List.mem_reverse.1 he))
  simp only [List.reverse_reverse, List.append_nil] at hfollow
  have hplace := hfollow (by omega) hopen
  have hstart : carryOut (follow (Files.disk home) [] ([] :: place.reverse)) files =
      (some place, files) := by
    rw [follow, if_pos (.inl rfl), hplace]
  simp [resolve, hhead, helements, hstart, hne, hlen]

/-- An index in a file with a plain name from the root. -/
def Place.ofElements (home : Path) (files : Files) (place : List Path) (hne : place ≠ [])
    (hplain : ∀ e ∈ place, IsPlain e) (hlen : (Path.ofElements place).length ≤ filePathLimit)
    (hopen : ∀ above, above <:+ place → above ≠ place →
      ∀ bytes, files (.ofElements above) ≠ .content bytes)
    (halone : Alone (.ofElements place) files) : Place where
  home := home
  path := .ofElements place
  file := .ofElements place
  files := files
  leads bytes := by
    apply resolve_plain home _ place hne hplain hlen
    intro above hsuffix habove bytes'
    have hother : Path.ofElements above ≠ .ofElements place := by
      intro he
      obtain ⟨below, rfl⟩ := hsuffix
      have hlength := congrArg List.length he
      rw [length_ofElements_append] at hlength
      have hnil : Path.ofElements below = [] := List.length_eq_zero_iff.1 (by omega)
      exact habove (by rw [eq_nil_of_ofElements hnil, List.nil_append])
    rw [Files.put, if_neg hother]
    exact hopen above hsuffix habove bytes'
  alone := halone

end Store

end CrossRef
