import CrossRef.Paged.File

namespace CrossRef.Paged

/-- Seven bits of a number per byte, the high ones first; all bytes but the last have the top bit
set. The ninth byte is the last and has eight bits. Returns the number and what is behind it. -/
def varint (bytes : ByteArray) (start : Nat) : Nat × Nat := go 8 0 start
where
  go : Nat → Nat → Nat → Nat × Nat
    | 0, n, i => (256 * n + (byteAt bytes i).toNat, i + 1)
    | left + 1, n, i =>
      let b := (byteAt bytes i).toNat
      if b < 128 then (128 * n + b, i + 1) else go left (128 * n + (b - 128)) (i + 1)

namespace Encoding

def ofSurrogates (high low : Nat) : Char :=
  Char.ofNat (0x10000 + 0x400 * (high - 0xd800) + (low - 0xdc00))

def ofUnits : List Nat → List Char
  | [] => []
  | [unit] => [Char.ofNat unit]
  | unit :: low :: rest =>
    if 0xd800 ≤ unit ∧ unit < 0xdc00 ∧ 0xdc00 ≤ low ∧ low < 0xe000 then
      ofSurrogates unit low :: ofUnits rest
    else Char.ofNat unit :: ofUnits (low :: rest)

/-- The units of two bytes that a text consists of, the first byte being the high one. -/
def units : List UInt8 → List Nat
  | high :: low :: rest => (256 * high.toNat + low.toNat) :: units rest
  | _ => []

def swap : List UInt8 → List UInt8
  | a :: b :: rest => b :: a :: swap rest
  | rest => rest

def decode? (encoding : Encoding) (bytes : ByteArray) : Option String :=
  match encoding with
  | .utf8 => String.fromUTF8? bytes
  | .utf16Little => some (String.ofList (ofUnits (units (swap bytes.toList))))
  | .utf16Big => some (String.ofList (ofUnits (units bytes.toList)))

end Encoding

inductive Value
  | null
  | int (n : Int)
  | real
  | text (bytes : ByteArray)
  | blob (bytes : ByteArray)

namespace Value

def sizeOf (kind : Nat) : Nat :=
  match kind with
  | 1 => 1
  | 2 => 2
  | 3 => 3
  | 4 => 4
  | 5 => 6
  | 6 | 7 => 8
  | kind => if kind < 12 then 0 else (kind - 12) / 2

def intAt (bytes : ByteArray) (width start : Nat) : Int :=
  Int.bmod (numberAt bytes width start) (1 <<< (8 * width))

/-- The value of a kind that starts at a byte. Zero and one take no room. -/
def ofBytes (kind : Nat) (bytes : ByteArray) (start : Nat) : Value :=
  if 12 ≤ kind then
    let content := slice bytes start (sizeOf kind)
    if kind % 2 = 0 then .blob content else .text content
  else match kind with
    | 0 | 10 | 11 => .null
    | 7 => .real
    | 8 => .int 0
    | 9 => .int 1
    | kind => .int (intAt bytes (sizeOf kind) start)

end Value

/-- A record of `size` bytes, as far as they are there. -/
structure Record where
  size : Nat
  bytes : ByteArray

namespace Record

/-- The kinds of the first `count` values, and where their list stops; it is read from `start` and
ends at `stop`. -/
def kinds (bytes : ByteArray) (stop : Nat) : Nat → Nat → List Nat × Nat
  | 0, start => ([], start)
  | count + 1, start =>
    let (kind, next) := varint bytes start
    if next < stop then
      let (rest, last) := kinds bytes stop count next
      (kind :: rest, last)
    else ([kind], next)

def valuesFrom? (bytes : ByteArray) : Nat → List Nat → Option (List Value)
  | _, [] => some []
  | start, kind :: rest => do
    let next := start + Value.sizeOf kind
    guard (next ≤ bytes.size)
    return Value.ofBytes kind bytes start :: (← valuesFrom? bytes next rest)

/-- The first `count` values, or fewer if there are no more. A record whose kinds do not fill their
list, or whose values do not fill it, is damaged; one without a list has no values. -/
def values? (count : Nat) (r : Record) : Option (List Value) := do
  let (stop, start) := varint r.bytes 0
  if stop = 0 then return []
  else
    guard (stop ≤ r.bytes.size)
    let (kinds, last) := kinds r.bytes stop count start
    let filled := stop + kinds.foldl (fun n kind => n + Value.sizeOf kind) 0
    guard (filled ≤ r.size)
    guard (last < stop ∨ (last = stop ∧ filled = r.size))
    valuesFrom? r.bytes stop kinds

end Record

end CrossRef.Paged
