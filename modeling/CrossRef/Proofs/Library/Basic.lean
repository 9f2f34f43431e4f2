import CrossRef.Ingest
import CrossRef.Proofs.Catalog

namespace CrossRef

open Store (DeclarationRow ReferenceRow Status)

/-- The files of an artifact with their facts in normal order, and what it needs and is called. -/
structure Content where
  version : Int64
  dependencies : TextSet
  aliases : TextSet
  files : FileMap

/-- What an index stands for: contents by artifact, without tables, batches or lookup numbers. -/
abbrev Library := Catalog (Prod.fst : String × Content → String)

/-- A line more than there are newlines in front of `start`, as far as 32 bits reach. -/
def lineOf (text : String) (start : UInt32) : UInt32 :=
  let newlines := ((Text.bytes text.toList).take start.toNat).count 10
  UInt32.ofNat (min (1 + newlines) (UInt32.size - 1))

/-- A row for every declaration in a file; members have a number sign or a parenthesis. -/
def SourceFile.declarationsAt (artifact path : String) (file : SourceFile) : List DeclarationRow :=
  file.declarations.map fun d =>
    ⟨artifact, d.2, path, decide ('#' ∉ d.2.text.toList ∧ '(' ∉ d.2.text.toList)⟩

/-- A row for every reference in a file. -/
def SourceFile.referencesAt (artifact path : String) (file : SourceFile) : List ReferenceRow :=
  file.mentions.map fun m => ⟨m.target, m.kind, artifact, path, lineOf file.text m.start, m.id⟩

namespace Content

def declarations (artifact : String) (c : Content) : List DeclarationRow :=
  c.files.toList.flatMap fun f => f.2.declarationsAt artifact f.1

def references (artifact : String) (c : Content) : List ReferenceRow :=
  c.files.toList.flatMap fun f => f.2.referencesAt artifact f.1

def status (artifact : String) (c : Content) : Status where
  artifact := artifact
  version := c.version
  files := c.files.toList.length
  declarations := (c.declarations artifact).length
  references := (c.references artifact).length
  dependencies := c.dependencies.toList
  aliases := c.aliases.toList

end Content

namespace Library

variable (l : Library)

def artifacts : List String := l.toList.map Prod.fst

def content? (artifact : String) : Option Content := (l.get? artifact).map Prod.snd

def artifactVersion? (artifact : String) : Option Int64 :=
  (l.content? artifact).map Content.version

def status (artifact : String) : Except Fault Status :=
  (l.content? artifact).elim (.error (.artifactNotFound artifact)) fun c => .ok (c.status artifact)

/-- In ascending order of the bindings. -/
def declarations (artifact : String) : List DeclarationRow :=
  ((l.content? artifact).elim [] (Content.declarations artifact)).mergeSort
    fun d e => d.binding.text ≤ e.binding.text

/-- By artifact, file, line and number within the file; references that stand on a par stay in the
order of their facts. -/
def referencesTo (b : Binding) : List ReferenceRow :=
  ((l.toList.flatMap fun e => e.2.references e.1).filter fun row => row.target = b).mergeSort
    ReferenceRow.precedes

/-- The declaration of a binding in the first artifact that has one. -/
def resolve? (b : Binding) : Option DeclarationRow :=
  (l.toList.flatMap fun e => e.2.declarations e.1).find? fun row => row.binding = b

def filePaths (artifact : String) : List String :=
  (l.content? artifact).elim [] fun c => c.files.toList.map Prod.fst

def file (artifact path : String) : Except Fault SourceFile :=
  ((l.content? artifact).bind fun c => c.files.get? path).elim
    (.error (.fileNotFound artifact path)) fun f => .ok f.2

def dependencies (artifact : String) : List String :=
  (l.content? artifact).elim [] fun c => c.dependencies.toList

def aliases (artifact : String) : List String :=
  (l.content? artifact).elim [] fun c => c.aliases.toList

end Library

/-- A store that answers every query as a library does. -/
structure Store.Answers (s : Store) (l : Library) : Prop where
  artifacts : s.artifacts = l.artifacts
  artifactVersion? : ∀ artifact, s.artifactVersion? artifact = l.artifactVersion? artifact
  status : ∀ artifact, s.status artifact = l.status artifact
  declarations : ∀ artifact, s.declarations artifact = l.declarations artifact
  referencesTo : ∀ b, s.referencesTo b = l.referencesTo b
  resolve? : ∀ b, s.resolve? b = l.resolve? b
  filePaths : ∀ artifact, s.filePaths artifact = l.filePaths artifact
  file : ∀ artifact path, s.file artifact path = l.file artifact path
  dependencies : ∀ artifact, s.dependencies artifact = l.dependencies artifact
  aliases : ∀ artifact, s.aliases artifact = l.aliases artifact

end CrossRef
