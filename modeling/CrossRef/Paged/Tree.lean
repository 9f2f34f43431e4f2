import CrossRef.Paged.Record

namespace CrossRef.Paged

inductive PageKind
  | leaf
  | inner
  deriving DecidableEq, Repr

/-- A page of a tree: where it starts, where its own header is, and its number of cells. The pages of
the lowest level hold the rows, those above lead to them from left to right. -/
structure Page where
  number : Nat
  start : Nat
  header : Nat
  kind : PageKind
  cellCount : Nat

namespace PageKind

def ofByte? (b : UInt8) : Option PageKind :=
  if b = 0x0d then some .leaf else if b = 0x05 then some .inner else none

def headerSize : PageKind → Nat
  | .leaf => 8
  | .inner => 12

end PageKind

namespace File

variable (file : File)

/-- The first page begins with the header of the file. -/
def headerSize (page : Nat) : Nat := if page = 1 then 100 else 0

/-- The least size of a cell with the two bytes that point to it. -/
def cellSize : Nat := 6

def page? (number : Nat) : Option Page := do
  guard (file.hasPage number)
  let start := file.startOf number
  let header := start + headerSize number
  let kind ← PageKind.ofByte? (byteAt file.bytes header)
  let cellCount := numberAt file.bytes 2 (header + 3)
  guard (cellCount ≤ (file.pageSize - 8) / cellSize)
  return ⟨number, start, header, kind, cellCount⟩

def cells (page : Page) : List Nat :=
  (List.range page.cellCount).map fun i =>
    page.start + numberAt file.bytes 2 (page.header + page.kind.headerSize + 2 * i) % file.pageSize

def children (page : Page) : List Nat :=
  (file.cells page).map (numberAt file.bytes 4) ++ [numberAt file.bytes 4 (page.header + 8)]

def levelLimit : Nat := 20

def leavesBelow? : Nat → Page → Option (List Page)
  | 0, _ => none
  | levels + 1, page =>
    match page.kind with
    | .leaf => some [page]
    | .inner => do
      let parts ← (file.children page).mapM fun number => do
        let child ← file.page? number
        guard (child.cellCount ≠ 0)
        leavesBelow? levels child
      return parts.flatten

/-- The lowest level of the tree that begins on a page. Only the first page may lead to a single
page. -/
def leaves? (root : Nat) : Option (List Page) := do
  let page ← file.page? root
  guard (page.kind = .leaf ∨ page.cellCount ≠ 0 ∨ root = 1)
  leavesBelow? file levelLimit page

def overflow : Nat → Nat → Nat → List UInt8
  | 0, _, _ => []
  | fuel + 1, size, number =>
    if size = 0 ∨ !file.hasPage number then []
    else
      let start := file.startOf number
      let part := min size (file.usable - 4)
      (slice file.bytes (start + 4) part).toList ++
        overflow fuel (size - part) (numberAt file.bytes 4 start)

/-- How many bytes of a record are stored in the page of its row: all if there is room, else as many
as leave no page of the rest filled in part, or the fewest. -/
def localSize (size : Nat) : Nat :=
  let fewest := (file.usable - 12) * 32 / 255 - 23
  let most := file.usable - 35
  let even := fewest + (size - fewest) % (file.usable - 4)
  if size ≤ most then size else if even ≤ most then even else fewest

def recordAt (cell : Nat) : Nat × Nat :=
  let (size, next) := varint file.bytes cell
  ((varint file.bytes next).2, size)

/-- The record of a cell. What would be stored behind the end of the page is not there. -/
def record (page : Page) (cell : Nat) : Record :=
  let (start, size) := file.recordAt cell
  let here := file.localSize size
  let there := min here (page.start + file.pageSize - start)
  let first := slice file.bytes start there
  if there < size ∧ start + here ≤ page.start + file.usable then
    let rest := file.overflow file.pageCount (size - here) (numberAt file.bytes 4 (start + here))
    ⟨size, first ++ ⟨rest.toArray⟩⟩
  else ⟨size, first⟩

def rows? (root count : Nat) : Option (List (List Value)) := do
  let leaves ← file.leaves? root
  (leaves.flatMap fun page => (file.cells page).map (file.record page)).mapM (Record.values? count)

end File

end CrossRef.Paged
