import CrossRef.Text

namespace CrossRef

/-- The name of a file, in bytes; slashes lead from directory to directory. -/
abbrev Path := List UInt8

namespace Path

def ofString (s : String) : Path := Text.bytes s.toList

def slash : UInt8 := 0x2f

def elements (path : Path) : List Path := Text.split slash path

/-- A file is named by the elements that lead to it from the root, the last one first. -/
def ofElements (place : List Path) : Path := place.reverse.flatMap (slash :: ·)

def name (path : Path) : Path := path.elements.getLastD []

def elementLimit : Nat := 255

end Path

/-- What is found under a name; a directory is there and cannot be read. -/
inductive Found
  | nothing
  | unreadable
  | content (bytes : ByteArray)

namespace Found

def text? : Found → Option String
  | .content bytes => String.fromUTF8? bytes
  | _ => none

def isThere : Found → Bool
  | .nothing => false
  | _ => true

end Found

/-- Files by name, and the directory that relative names start from. A file that cannot be written
is reported by `false`. -/
structure Disk (m : Type → Type) where
  home : Path
  read : Path → m Found
  write : Path → ByteArray → m Bool
  remove : Path → m Unit

end CrossRef
