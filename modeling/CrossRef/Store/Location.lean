import CrossRef.Disk
import CrossRef.Text.Percent

namespace CrossRef.Store

inductive Access
  | read
  | change
  | create
  | memory
  deriving DecidableEq, Repr

namespace Access

def ofName? : String → Option Access
  | "ro" => some .read
  | "rw" => some .change
  | "rwc" => some .create
  | "memory" => some .memory
  | _ => none

def rank : Access → Nat
  | .read => 0
  | .change => 1
  | .create => 2
  | .memory => 3

/-- Access may be narrowed and not widened; in memory there is nothing to protect. -/
def narrow? (old new : Access) : Option Access :=
  if new = .memory ∨ new.rank ≤ old.rank then some new else none

end Access

/-- How changes reach the file of a database: through a log with an index that all users share,
through a log of one user, or at once. -/
inductive LogMode
  | shared
  | exclusive
  | absent
  deriving DecidableEq, Repr

/-- What holds the bytes of a database: files, which may be locked by a directory beside them, or
memory. -/
inductive Medium
  | files (log : LogMode) (directoryLock : Bool)
  | memory
  deriving DecidableEq, Repr

def Medium.ofName? : String → Option Medium
  | "unix" => some (.files .shared false)
  | "unix-excl" => some (.files .exclusive false)
  | "unix-none" => some (.files .absent false)
  | "unix-dotfile" => some (.files .absent true)
  | "memdb" => some .memory
  | _ => none

/-- How a file is used as a database. -/
structure FileUse where
  mayChange : Bool := true
  mayCreate : Bool := true
  log : LogMode := .shared
  directoryLock : Bool := false
  /-- The file may not change once it is there. -/
  frozen : Bool := false
  /-- The shared index of the log may not change. -/
  frozenIndex : Bool := false
  /-- A file that must be there, whose permissions a new one takes. -/
  permissionsOf : Option Path := none
  deriving DecidableEq, Repr

inductive Location
  | temporary
  | file (path : Path) (use : FileUse)
  deriving DecidableEq, Repr

/-- Options of a URI with their values, in the order given. -/
abbrev UriOptions := List (List UInt8 × List UInt8)

namespace UriOptions

/-- What a part of a URI stands for; a coded NUL ends it. -/
def decode (cs : List Char) : List UInt8 := (Text.Percent.decode cs).takeWhile (· ≠ 0)

/-- An option without a name counts for nothing. -/
def ofQuery (cs : List Char) : UriOptions :=
  let pairs := (Text.split '&' cs).map fun part =>
    (decode (part.takeWhile (· ≠ '=')), decode ((part.dropWhile (· ≠ '=')).drop 1))
  pairs.filter fun (name, _) => name ≠ []

def values (name : String) (options : UriOptions) : List (List UInt8) :=
  (options.filter fun (key, _) => key = Text.bytes name.toList).map Prod.snd

def word? (value : List UInt8) : Option String := String.fromUTF8? ⟨value.toArray⟩

/-- The number that a value begins with, in base 16 behind `0x`. -/
def leadingNumber : List Char → Nat
  | '0' :: x :: c :: rest =>
    if (x = 'x' ∨ x = 'X') ∧ (Decimal.hexValue? c).isSome then
      let digits := (c :: rest).takeWhile fun c => (Decimal.hexValue? c).isSome
      (Decimal.natOfHex? digits).getD 0
    else Decimal.natOfDigits (('0' :: x :: c :: rest).takeWhile Char.isDigit)
  | cs => Decimal.natOfDigits (cs.takeWhile Char.isDigit)

/-- Whether a value means yes. A number does unless it is a multiple of 256 or takes more than 31
bits. -/
def isYes (value : List UInt8) : Bool :=
  let cs := value.map fun b => Char.ofNat b.toNat
  if cs.head?.any Char.isDigit then leadingNumber cs < 1 <<< 31 ∧ leadingNumber cs % 256 ≠ 0
  else String.ofList (cs.map Char.toLower) ∈ ["on", "yes", "true"]

def holds (name : String) (options : UriOptions) : Bool := (options.values name).head?.any isYes

def access? (options : UriOptions) : Option Access :=
  (options.values "mode").foldlM (fun old value =>
    ((word? value).bind Access.ofName?).bind old.narrow?) .create

def medium? (options : UriOptions) : Option Medium :=
  match (options.values "vfs").getLast? with
  | none => some (.files .shared false)
  | some value => (word? value).bind Medium.ofName?

def cacheIsKnown (options : UriOptions) : Bool :=
  (options.values "cache").all fun value =>
    word? value = some "shared" ∨ word? value = some "private"

end UriOptions

namespace Location

def isTemporary (path : Path) : Bool := path = [] ∨ path = Path.ofString ":memory:"

def memoryNameLimit : Nat := 1016

/-- The place of a path. What lasts as long as the run is of no use if it may only be read. -/
def ofOptions? (path : Path) (options : UriOptions) : Option Location := do
  let access ← options.access?
  let medium ← options.medium?
  guard options.cacheIsKnown
  let forRun : Option Location := if access = .read then none else some .temporary
  if access = .memory ∨ isTemporary path then forRun
  else match medium with
    | .memory =>
      if options.holds "immutable" ∨ memoryNameLimit < path.length then none else forRun
    | .files log directoryLock =>
      let locks := !options.holds "nolock"
      return .file path {
        mayChange := access ≠ .read
        mayCreate := access = .create
        log := if locks then log else .absent
        directoryLock := directoryLock && locks
        frozen := options.holds "immutable"
        frozenIndex := options.holds "readonly_shm"
        permissionsOf := (options.values "modeof").head? }

/-- Skips the authority of a URI, which can only be this computer. -/
def skipAuthority? : List Char → Option (List Char)
  | '/' :: '/' :: rest =>
    let authority := String.ofList (rest.takeWhile (· ≠ '/'))
    if authority = "" ∨ authority = "localhost" then some (rest.dropWhile (· ≠ '/')) else none
  | cs => some cs

/-- The place that a URI names behind its scheme; what follows a `#` says nothing. -/
def ofUri? (cs : List Char) : Option Location := do
  let cs := (← skipAuthority? cs).takeWhile (· ≠ '#')
  let path := UriOptions.decode (cs.takeWhile (· ≠ '?'))
  ofOptions? path (.ofQuery ((cs.dropWhile (· ≠ '?')).drop 1))

/-- The place that a name stands for, if it can be one: a path, or a URI behind `file:`. No name, and
`:memory:`, stand for a database that lasts as long as the run. -/
def ofName? (name : String) : Option Location :=
  let cs := name.toList
  if '\x00' ∈ cs then none
  else match cs with
    | 'f' :: 'i' :: 'l' :: 'e' :: ':' :: rest => ofUri? rest
    | _ => some (if isTemporary (.ofString name) then .temporary else .file (.ofString name) {})

end Location

end CrossRef.Store
