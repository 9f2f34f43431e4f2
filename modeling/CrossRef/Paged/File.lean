namespace CrossRef.Paged

inductive Encoding
  | utf8
  | utf16Little
  | utf16Big
  deriving DecidableEq, Repr

/-- A file of pages, numbered from 1. All are of one size, and the bytes at the end of each that are
not usable hold nothing. The first hundred bytes say how the rest is laid out; bytes behind the end
of the file are zero. -/
structure File where
  bytes : ByteArray
  pageSize : Nat
  usable : Nat
  pageCount : Nat

def byteAt (bytes : ByteArray) (i : Nat) : UInt8 := (bytes[i]?).getD 0

def numberAt (bytes : ByteArray) (width i : Nat) : Nat :=
  (List.range width).foldl (fun n k => 256 * n + (byteAt bytes (i + k)).toNat) 0

def slice (bytes : ByteArray) (start size : Nat) : ByteArray :=
  ⟨((List.range size).map fun k => byteAt bytes (start + k)).toArray⟩

def signature : List UInt8 :=
  [0x53, 0x51, 0x4c, 0x69, 0x74, 0x65, 0x20, 0x66, 0x6f, 0x72, 0x6d, 0x61, 0x74, 0x20, 0x33, 0x00]

/-- The shares of a page that records may take, as they are always written. -/
def shares : List UInt8 := [0x40, 0x20, 0x20]

/-- A power of two from 512 to 65536, the last written as 1. -/
def pageSize? (bytes : ByteArray) : Option Nat :=
  let size := if numberAt bytes 2 16 = 1 then 65536 else numberAt bytes 2 16
  if 512 ≤ size ∧ size = 1 <<< size.log2 then some size else none

/-- The number of pages that the file says it has. It counts if it was written by the last change;
otherwise the size of the file decides. -/
def pageCount? (bytes : ByteArray) (pageSize : Nat) : Option Nat :=
  let actual := (bytes.size + pageSize - 1) / pageSize
  let said := numberAt bytes 4 28
  if said = 0 ∨ numberAt bytes 4 24 ≠ numberAt bytes 4 92 then some actual
  else if said ≤ actual then some said
  else none

namespace File

def versionLimit : UInt8 := 2

def usableLimit : Nat := 480

def formLimit : UInt8 := 4

def ofBytes? (bytes : ByteArray) : Option File := do
  guard ((List.range 16).map (byteAt bytes) = signature)
  guard (byteAt bytes 18 ≤ versionLimit ∧ byteAt bytes 19 ≤ versionLimit)
  guard ((List.range' 21 3).map (byteAt bytes) = shares)
  let pageSize ← pageSize? bytes
  let usable := pageSize - (byteAt bytes 20).toNat
  guard (usableLimit ≤ usable)
  let pageCount ← pageCount? bytes pageSize
  guard (byteAt bytes 47 ≤ formLimit)
  return ⟨bytes, pageSize, usable, pageCount⟩

variable (file : File)

def logged : Bool := byteAt file.bytes 19 = 2

def encoding : Encoding :=
  match (byteAt file.bytes 59).toNat % 4 with
  | 2 => .utf16Little
  | 3 => .utf16Big
  | _ => .utf8

/-- The first of the pages that list free pages, and how many pages are free. -/
def firstFree : Nat := numberAt file.bytes 4 32

def freeCount : Nat := numberAt file.bytes 4 36

/-- The last page that a table begins on, in a file that keeps track of its pages; otherwise 0. -/
def lastRoot : Nat := numberAt file.bytes 4 52

def startOf (page : Nat) : Nat := (page - 1) * file.pageSize

def hasPage (page : Nat) : Bool := 1 ≤ page ∧ page ≤ file.pageCount

end File

end CrossRef.Paged
