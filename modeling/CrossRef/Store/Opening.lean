import CrossRef.Store.Location
import CrossRef.Store.Paged

namespace CrossRef.Store

def pathLimit : Nat := 511

/-- How long the path of a database may be, beside whose file there has to be room for a journal. -/
def filePathLimit : Nat := 504

structure OpenFile where
  path : Path
  logged : Bool
  deriving DecidableEq, Repr

inductive Companion
  | journal
  | log
  | logIndex
  | lock
  deriving DecidableEq, Repr

def Companion.ending : Companion → String
  | .journal => "-journal"
  | .log => "-wal"
  | .logIndex => "-shm"
  | .lock => ".lock"

def Companion.path (c : Companion) (file : Path) : Path := file ++ Path.ofString c.ending

variable {m : Type → Type} [Monad m] (disk : Disk m)

/-- Goes from a directory, which is newest first, through the elements of a path. A `..` takes back
the element before it, whether or not that leads anywhere; there is no way on from a file. -/
def follow : List Path → List Path → OptionT m (List Path)
  | place, [] => return place
  | place, e :: rest =>
    if e = [] ∨ e = Path.ofString "." then follow place rest
    else if e = Path.ofString ".." then follow place.tail rest
    else do
      let next := e :: place
      guard (e.length ≤ Path.elementLimit ∧ (Path.ofElements next).length ≤ pathLimit)
      match ← disk.read (.ofElements place) with
      | .content _ => failure
      | _ => follow next rest

def resolve (path : Path) : OptionT m Path := do
  let home := (disk.home.elements.filter (· ≠ [])).reverse
  let place ← follow disk (if path.head? = some Path.slash then [] else home) path.elements
  let file := Path.ofElements place
  guard (place ≠ [] ∧ file.length ≤ filePathLimit)
  return file

/-- What the file holds; it is made if it is not there and may be. -/
def contentOf (file : Path) (mayCreate : Bool) : OptionT m ByteArray := do
  match ← disk.read file with
  | .content bytes => return bytes
  | .unreadable => failure
  | .nothing =>
    guard mayCreate
    guard (← disk.write file .empty)
    return .empty

/-- Removes a journal that was left behind; beside an index, one that begins with zero is finished
and stays. What is no file is in the way of an index. -/
def dropJournal (file : Path) (held : ByteArray) : OptionT m Unit := do
  match ← disk.read (Companion.journal.path file) with
  | .nothing => return ()
  | .unreadable => guard (Image.isBlank held)
  | .content bytes =>
    if bytes.size ≠ 0 ∧ (Image.isBlank held ∨ bytes[0]? ≠ some 0) then
      disk.remove (Companion.journal.path file)

/-- Whether there is a log that was left behind, which is taken over. Of a blank file it is removed,
and without a log in use it is in the way. -/
def adoptLog (file : Path) (mode : LogMode) (held : ByteArray) : OptionT m Bool := do
  match ← disk.read (Companion.log.path file) with
  | .nothing => return false
  | .unreadable => failure
  | .content bytes =>
    if bytes.size = 0 then return false
    else if Image.isBlank held then
      disk.remove (Companion.log.path file)
      return false
    else
      guard (mode ≠ .absent)
      return true

def useJournal (file : Path) : OptionT m Unit := do
  let journal := Companion.journal.path file
  guard (journal.name.length ≤ Path.elementLimit)
  match ← disk.read journal with
  | .nothing => return ()
  | .unreadable => failure
  | .content _ => disk.remove journal

/-- Whether the log can be used: an index that is shared is a file that may change. -/
def logIsUsable (file : Path) (use : FileUse) : OptionT m Bool := do
  if use.log ≠ .shared then return true
  else
    match ← disk.read (Companion.logIndex.path file) with
    | .unreadable => return false
    | _ => return !use.frozenIndex

def dropLog (file : Path) (mode : LogMode) : OptionT m Unit := do
  disk.remove (Companion.log.path file)
  if mode = .shared then disk.remove (Companion.logIndex.path file)

/-- Says in the file whether it has a log; that goes through no log itself. -/
def convert (file : Path) (image : Image) (logged : Bool) : OptionT m Unit := do
  if logged ≠ image.logged then
    useJournal disk file
    guard (← disk.write file (Image.encode ⟨logged, image.tables⟩))

def update (file : Path) (hasLog : Bool) (held : ByteArray) (image : Image) : OptionT m Unit := do
  if held.data ≠ image.encode.data then
    if !hasLog then useJournal disk file
    guard (← disk.write file image.encode)

/-- Brings an index into the state in which it is used: with all tables, and with a log if the use
has one. An index that has a log cannot be used without. -/
def settle (file : Path) (use : FileUse) (held : ByteArray) (image : Image) (adopted : Bool) :
    OptionT m (OpenFile × Tables) := do
  let hasLog : Bool := use.log ≠ .absent
  let logged := image.logged || (hasLog && !adopted)
  guard (hasLog ∨ !image.logged)
  convert disk file image logged
  if hasLog ∧ !(← logIsUsable disk file use) then
    if !adopted then guard (← disk.write (Companion.log.path file) .empty)
    failure
  if image.tables.isSome then update disk file hasLog held ⟨logged, image.tables⟩
  if hasLog then dropLog disk file use.log
  match image.tables with
  | some tables => return (⟨file, logged⟩, tables)
  | none => failure

/-- What stands for the index of a log; it is no text. -/
def logIndexContent : ByteArray := ⟨#[0x18, 0xe2, 0x2d, 0x00]⟩

/-- Whether a journal beside a file holds changes that would have to be taken back first. -/
def journalIsHot (file : Path) (held : ByteArray) : OptionT m Bool := do
  match ← disk.read (Companion.journal.path file) with
  | .nothing => return false
  | .unreadable => return true
  | .content bytes => return !Image.isBlank held && bytes.size ≠ 0 && bytes[0]? ≠ some 0

/-- Looks at a file that may not change, which is of no use. If there is a log, or the file has one,
the log is opened; it stays behind with its index, because only who may change the file may remove
them. A journal beside a blank file is removed if nobody can lock the file. -/
def inspect (file : Path) (use : FileUse) (key : Binding → Int64) (held : ByteArray) :
    OptionT m Unit := do
  if use.log = .absent ∧ Image.isBlank held then dropJournal disk file held
  guard !(← journalIsHot disk file held)
  let adopted ← adoptLog disk file use.log held
  let logged := (Image.ofFile? key held).any Image.logged
  if use.log ≠ .absent ∧ (adopted ∨ logged) then
    if !adopted then guard (← disk.write (Companion.log.path file) .empty)
    if ← logIsUsable disk file { use with log := .shared } then
      guard (← disk.write (Companion.logIndex.path file) logIndexContent)

/-- Opens the file of an index, which is made if there is none. What another run has left beside it is
done away with; whatever is in the way of that makes the file unusable. -/
def openFile (path : Path) (use : FileUse) (key : Binding → Int64) :
    OptionT m (OpenFile × Tables) := do
  let file ← resolve disk path
  match use.permissionsOf with
  | none => pure ()
  | some other => guard (← disk.read other).isThere
  let held ← contentOf disk file use.mayCreate
  guard !use.frozen
  guard !(use.directoryLock && (← disk.read (Companion.lock.path file)).isThere)
  if !use.mayChange then
    inspect disk file use key held
    failure
  dropJournal disk file held
  let adopted ← adoptLog disk file use.log held
  match Image.ofFile? key held with
  | some image => settle disk file use held image adopted
  | none =>
    if adopted ∧ (← logIsUsable disk file use) then dropLog disk file use.log
    failure

def OpenFile.keep (tables : Tables) (file : OpenFile) : m Bool :=
  disk.write file.path (Image.encode ⟨file.logged, some tables⟩)

end CrossRef.Store
