import CrossRef.Decimal
import CrossRef.Paged.Definition
import CrossRef.Paged.Tree

namespace CrossRef.Paged

/-- A table, with the number of its indexes that nobody names. -/
structure Table where
  name : String
  columns : List String
  root : Nat
  indexCount : Nat
  /-- The rows are in the order of a key and have no numbers. -/
  byKey : Bool
  deriving DecidableEq, Repr

/-- The tables, views and indexes that have been listed in the table that begins on the first page.
Indexes that follow from the clauses of a table wait to be listed without a definition; the ends of
their names are known. -/
structure Schema where
  tables : List Table := []
  views : List String := []
  indexes : List String := []
  unlisted : List String := []
  deriving DecidableEq, Repr

structure Listed where
  kind : String
  name : String
  owner : String
  root : String
  definition : Option String
  deriving DecidableEq, Repr

namespace Listed

/-- What a value says as a text, which ends at a NUL. A number that is not whole says nothing of
use. -/
def textOf (encoding : Encoding) : Value → Option String
  | .null => none
  | .int n => some (toString n)
  | .real => some "."
  | .text bytes | .blob bytes =>
    some (String.ofList (((encoding.decode? bytes).getD ".").toList.takeWhile (· ≠ '\x00')))

/-- A row without a page is damaged. Names that are not there count as empty. -/
def ofValues? (encoding : Encoding) (row : List Value) : Option Listed := do
  let text (i : Nat) : Option String := (row[i]?).bind (textOf encoding)
  let lower (i : Nat) : String := Token.lower ((text i).getD "").toList
  return ⟨lower 0, lower 1, lower 2, ← text 3, text 4⟩

def root? (l : Listed) : Option Nat :=
  let cs := l.root.toList
  if cs ≠ [] ∧ cs.all Char.isDigit then some (Decimal.natOfDigits cs) else none

/-- Definitions are told by their first two letters. -/
def isDefined (text : String) : Bool :=
  ((text.toList.take 2).map Char.toLower) = ['c', 'r']

end Listed

namespace Schema

variable (s : Schema)

def table? (name : String) : Option Table := s.tables.find? fun t => t.name = name

def hasTable (name : String) : Bool := (s.table? name).isSome || name ∈ s.views

def indexEndings (table : String) (count : Nat) : List String :=
  (List.range count).map fun i => "_autoindex_" ++ table ++ "_" ++ toString (i + 1)

def awaitsIndex (table : Table) : Bool :=
  (indexEndings table.name table.indexCount).any (· ∈ s.unlisted)

/-- Adds what a row defines. It says the same as the definition, and the name is free. -/
def define? (l : Listed) (root : Nat) (d : Definition) : Option Schema :=
  match d with
  | .table name columns indexes byKey => do
    guard (l.kind = "table" ∧ l.name = name ∧ l.owner = name)
    guard (root ≠ 1 ∧ !s.hasTable name ∧ name ∉ s.indexes)
    return { s with
      tables := s.tables ++ [⟨name, columns, root, indexes, byKey⟩]
      unlisted := s.unlisted ++ indexEndings name indexes }
  | .index name table columns => do
    guard (l.kind = "index" ∧ l.name = name ∧ l.owner = table)
    let owner ← s.table? table
    guard (name ∉ s.indexes ∧ columns.all (· ∈ owner.columns))
    return { s with indexes := s.indexes ++ [name] }
  | .view name => do
    guard (l.kind = "view" ∧ l.name = name ∧ l.owner = name)
    guard (root = 0 ∧ !s.hasTable name ∧ name ∉ s.indexes)
    return { s with views := s.views ++ [name] }

/-- Adds a row of the list, in a file of so many pages. -/
def add? (pageCount : Nat) (l : Listed) : Option Schema := do
  let root ← l.root?
  guard (root ≤ pageCount)
  match l.definition with
  | some text =>
    if Listed.isDefined text then s.define? l root (← Definition.ofText? text)
    else if text = "" then place root else none
  | none => place root
where
  place (root : Nat) : Option Schema := do
    let ending ← s.unlisted.find? fun ending => l.name.endsWith ending
    guard (2 ≤ root)
    return { s with indexes := s.indexes ++ [l.name], unlisted := s.unlisted.erase ending }

def root : Nat := 1

def width : Nat := 5

def ofFile? (file : File) : Option Schema := do
  let rows ← file.rows? root width
  let listed ← rows.mapM (Listed.ofValues? file.encoding)
  listed.foldlM (fun s l => s.add? file.pageCount l) {}

end Schema

end CrossRef.Paged
