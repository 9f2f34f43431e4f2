import CrossRef.Paged.Tree

namespace CrossRef.Paged

def Page.listEnd (page : Page) : Nat :=
  page.header - page.start + page.kind.headerSize + 2 * page.cellCount

namespace File

variable (file : File)

/-- Where the cells of a page begin, from its start; a page of 65536 bytes without cells says 0. -/
def top (page : Page) : Nat :=
  let said := numberAt file.bytes 2 (page.header + 5)
  if said = 0 then 65536 else said

def blockSize : Nat := 4

/-- The bytes in the free blocks of a page from one of them on. Each block says where the next one
is, which has to be behind it, and how large it is. -/
def blocks? (page : Page) : Nat → Nat → Option Nat
  | 0, _ => none
  | fuel + 1, block => do
    guard (block + blockSize ≤ file.usable)
    let next := numberAt file.bytes 2 (page.start + block)
    let size := numberAt file.bytes 2 (page.start + block + 2)
    if block + size + 3 < next then return size + (← blocks? page fuel next)
    else
      guard (next = 0 ∧ block + size ≤ file.usable)
      return size

def freeBlocks? (page : Page) : Option Nat :=
  let block := numberAt file.bytes 2 (page.header + 1)
  if block = 0 then some 0
  else if block < file.top page then none
  else file.blocks? page file.usable block

def isTidy (page : Page) : Bool :=
  match file.freeBlocks? page with
  | none => false
  | some blocks =>
    let room := file.top page + (byteAt file.bytes (page.header + 7)).toNat + blocks
    page.listEnd ≤ file.top page ∧ room ≤ file.usable

def cellsFit (page : Page) : Bool :=
  (file.cells page).all fun cell =>
    let (start, size) := file.recordAt cell
    page.start + page.listEnd ≤ cell ∧
      start + file.localSize size ≤ page.start + file.usable

def hasFreePages : Nat → Nat → Nat → Bool
  | _, 0, _ => true
  | 0, _, _ => false
  | fuel + 1, count, number =>
    let start := file.startOf number
    let listed := numberAt file.bytes 4 (start + 4)
    let isFree (page : Nat) : Bool := 2 ≤ page ∧ page ≤ file.pageCount
    isFree number && listed ≤ file.usable / 4 - 2 &&
      (List.range listed).all (fun i => isFree (numberAt file.bytes 4 (start + 8 + 4 * i))) &&
      hasFreePages fuel (count - (listed + 1)) (numberAt file.bytes 4 start)

/-- Whether a page is one of those that keep track of the pages behind them. -/
def tracksPages (page : Nat) : Bool := 2 ≤ page ∧ (page - 2) % (file.usable / 5 + 1) = 0

/-- Whether the file can get a further table. One that keeps track of its pages has all tables begin
on its first pages, and is given no table where that would move a page. -/
def canGrow : Bool :=
  let next := if file.tracksPages (file.lastRoot + 1) then file.lastRoot + 2 else file.lastRoot + 1
  let ordered : Bool := file.lastRoot = 0 ∨
    (file.lastRoot ≤ file.pageCount ∧ file.pageCount < next ∧ !file.tracksPages file.pageCount)
  let listed : Bool := file.freeCount = 0 ∨ (file.freeCount < file.pageCount ∧
    file.hasFreePages file.pageCount file.freeCount file.firstFree)
  ordered && listed

def canExtend (root : Nat) : Bool :=
  match file.leaves? root with
  | none => false
  | some leaves => leaves.all fun page => file.isTidy page && file.cellsFit page

end File

end CrossRef.Paged
