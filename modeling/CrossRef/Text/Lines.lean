import CrossRef.Text

namespace CrossRef.Text

/-- Offsets just behind the newlines of a text that begins at `pos`. -/
def startsBehind (pos : Nat) : List Char → List Nat
  | [] => []
  | c :: cs =>
    let next := pos + c.utf8Size
    if c = '\n' then next :: startsBehind next cs else startsBehind next cs

/-- Where the lines of a text start; the first line starts at 0 and every newline opens one. -/
structure LineTable where
  starts : Array Nat
  deriving DecidableEq

namespace LineTable

def ofText (text : String) : LineTable := ⟨(0 :: startsBehind 0 text.toList).toArray⟩

/-- Looks between `lo` and `hi` for the first entry above `offset`, halving the range. -/
def searchAbove (starts : Array Nat) (offset : Nat) (lo hi : Nat) : Nat :=
  if h : lo < hi ∧ hi ≤ starts.size then
    let mid := (lo + hi) / 2
    have hmid : mid < starts.size := by omega
    if starts[mid] ≤ offset then searchAbove starts offset (mid + 1) hi
    else searchAbove starts offset lo mid
  else lo
termination_by hi - lo
decreasing_by all_goals omega

def startsUpTo (t : LineTable) (offset : Nat) : Nat := searchAbove t.starts offset 0 t.starts.size

/-- The line that holds `offset`; numbers past the 32-bit range stay at its end. -/
def lineAt (t : LineTable) (offset : Nat) : UInt32 :=
  UInt32.ofNat (min (t.startsUpTo offset) (UInt32.size - 1))

/-- Number of lines; a final newline opens one more, empty line. -/
def lineCount (t : LineTable) : Nat := t.starts.size

end LineTable

end CrossRef.Text
