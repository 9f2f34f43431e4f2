namespace CrossRef.Decimal

/-- The least magnitude that double precision rounds to infinity. -/
def overflow : Nat := 1 <<< 1024 - 1 <<< 970

/-- Whether `digits` times ten to the `exponent` is finite in double precision. A numeral of `n`
digits is below ten to the `n + exponent`, which settles all but a narrow range. -/
def isFinite (digits : Nat) (exponent : Int) : Bool :=
  let magnitude := (Nat.toDigits 10 digits).length + exponent
  if digits = 0 ∨ magnitude ≤ 308 then true
  else if 310 ≤ magnitude then false
  else digits * Nat.pow 10 exponent.toNat < overflow * Nat.pow 10 (-exponent).toNat

/-- The double nearest to a whole number; of two as near, the even one. -/
def nearest (n : Nat) : Nat :=
  let unit := 1 <<< (n.log2 - 52)
  let below := n / unit
  let rest := 2 * (n % unit)
  if unit < rest ∨ (rest = unit ∧ below % 2 = 1) then (below + 1) * unit else below * unit

/-- Whether a number times a power of ten is finite in double precision where both factors are
rounded before they are multiplied. -/
def productIsFinite (significand : Nat) (exponent : Int) : Bool :=
  if significand = 0 ∨ exponent < 0 then true
  else if 308 < exponent then false
  else nearest significand * nearest (Nat.pow 10 exponent.toNat) < overflow

def valueOfDigit (c : Char) : Nat := c.toNat - '0'.toNat

/-- Appends digits to a number while it stays below 2^64, and leaves the rest. -/
def appendDigits (n : Nat) : List Char → Nat × List Char
  | [] => (n, [])
  | c :: cs =>
    let next := 10 * n + valueOfDigit c
    if next < UInt64.size then appendDigits next cs else (n, c :: cs)

/-- The leading digits of a numeral as a number below 2^64, with the power of ten that scales it.
Left-over digits of the whole part count as zeros, those of the fraction are dropped. -/
def leading (whole fraction : List Char) : Nat × Int :=
  let (n, zeros) := appendDigits 0 whole
  let (n, dropped) := appendDigits n fraction
  (n, zeros.length + dropped.length - fraction.length)

def natOfDigits (ds : List Char) : Nat := ds.foldl (fun n c => 10 * n + valueOfDigit c) 0

def hexValue? (c : Char) : Option Nat :=
  if '0' ≤ c ∧ c ≤ '9' then some (c.toNat - '0'.toNat)
  else if 'a' ≤ c ∧ c ≤ 'f' then some (c.toNat - 'a'.toNat + 10)
  else if 'A' ≤ c ∧ c ≤ 'F' then some (c.toNat - 'A'.toNat + 10)
  else none

def natOfHex? (cs : List Char) : Option Nat :=
  cs.foldlM (fun n c => (hexValue? c).map (16 * n + ·)) 0

end CrossRef.Decimal
