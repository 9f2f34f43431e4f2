import CrossRef.Decimal
import CrossRef.Toml.Value

namespace CrossRef.Toml

/-- The digits of a number without the underscores, each of which stands between two digits. -/
def grouped (isDigit : Char → Bool) : List Char → Option (List Char)
  | [] => none
  | [c] => if isDigit c then some [c] else none
  | c :: '_' :: d :: rest =>
    if isDigit c then (grouped isDigit (d :: rest)).map (c :: ·) else none
  | c :: d :: rest =>
    if isDigit c then (grouped isDigit (d :: rest)).map (c :: ·) else none

def splitSign : List Char → Bool × List Char
  | '-' :: rest => (true, rest)
  | '+' :: rest => (false, rest)
  | cs => (false, cs)

def wholeDigits? (cs : List Char) : Option (List Char) :=
  if cs.head? = some '0' ∧ cs.length ≠ 1 then none else grouped Char.isDigit cs

def integerInRange (n : Int) : Option Toml :=
  if Int64.minValue.toInt ≤ n ∧ n ≤ Int64.maxValue.toInt then some (.integer n) else none

def isOctalDigit (c : Char) : Bool := '0' ≤ c ∧ c ≤ '7'

def isBinaryDigit (c : Char) : Bool := c = '0' ∨ c = '1'

def isHexDigit (c : Char) : Bool := (Decimal.hexValue? c).isSome

/-- The number that digits spell in a base; only a decimal number has a sign. -/
def natInBase (base : Nat) (ds : List Char) : Nat :=
  ds.foldl (fun n c => base * n + (Decimal.hexValue? c).getD 0) 0

def integer? : List Char → Option Toml
  | '0' :: 'x' :: rest =>
    (grouped isHexDigit rest).bind fun ds => integerInRange (natInBase 16 ds)
  | '0' :: 'o' :: rest =>
    (grouped isOctalDigit rest).bind fun ds => integerInRange (natInBase 8 ds)
  | '0' :: 'b' :: rest =>
    (grouped isBinaryDigit rest).bind fun ds => integerInRange (natInBase 2 ds)
  | cs =>
    let (negative, body) := splitSign cs
    (wholeDigits? body).bind fun ds =>
      let n : Int := natInBase 10 ds
      integerInRange (if negative then -n else n)

def isExponentMark (c : Char) : Bool := c = 'e' ∨ c = 'E'

/-- The value of what follows a whole part: a fraction, an exponent or both. -/
def scale? (cs : List Char) : Option (List Char × Int) := do
  let mantissa := cs.takeWhile fun c => !isExponentMark c
  let fraction ← match mantissa with
    | [] => some []
    | '.' :: ds => grouped Char.isDigit ds
    | _ => none
  match cs.dropWhile fun c => !isExponentMark c with
  | [] => if fraction = [] then none else return (fraction, 0)
  | _ :: rest =>
    let (negative, body) := splitSign rest
    let n : Int := Decimal.natOfDigits (← grouped Char.isDigit body)
    return (fraction, if negative then -n else n)

/-- A float that is too large above is refused; too large below, it is infinite. -/
def float? (cs : List Char) : Option Toml := do
  let (negative, body) := splitSign cs
  if body = "inf".toList ∨ body = "nan".toList then return .float
  let isWhole := fun c => Char.isDigit c || c = '_'
  let ds ← wholeDigits? (body.takeWhile isWhole)
  let (fraction, exponent) ← scale? (body.dropWhile isWhole)
  let digits := Decimal.natOfDigits (ds ++ fraction)
  if negative ∨ Decimal.isFinite digits (exponent - fraction.length) then return .float else none

def twoDigits? (limit : Nat) : List Char → Option (Nat × List Char)
  | a :: b :: rest =>
    let n := Decimal.natOfDigits [a, b]
    if a.isDigit ∧ b.isDigit ∧ n ≤ limit then some (n, rest) else none
  | _ => none

def expect? (c : Char) : List Char → Option (List Char)
  | d :: rest => if c = d then some rest else none
  | [] => none

def daysOfMonth (year month : Nat) : Nat :=
  if month = 2 then
    if year % 4 = 0 ∧ (year % 100 ≠ 0 ∨ year % 400 = 0) then 29 else 28
  else if month = 4 ∨ month = 6 ∨ month = 9 ∨ month = 11 then 30
  else 31

def date? : List Char → Option (List Char)
  | a :: b :: c :: d :: rest => do
    if [a, b, c, d].all Char.isDigit then
      let (month, rest) ← twoDigits? 12 (← expect? '-' rest)
      let (day, rest) ← twoDigits? 31 (← expect? '-' rest)
      if 1 ≤ month ∧ 1 ≤ day ∧ day ≤ daysOfMonth (Decimal.natOfDigits [a, b, c, d]) month then
        return rest
      else none
    else none
  | _ => none

/-- A time `07:32:00.5` at the start of a word; a minute may have a leap second. -/
def time? (cs : List Char) : Option (List Char) := do
  let (_, rest) ← twoDigits? 23 cs
  let (_, rest) ← twoDigits? 59 (← expect? ':' rest)
  let (_, rest) ← twoDigits? 60 (← expect? ':' rest)
  match rest with
  | '.' :: rest => if rest.head?.any Char.isDigit then return rest.dropWhile Char.isDigit else none
  | rest => return rest

/-- `Z`, or the hours and minutes from it. -/
def isOffset (cs : List Char) : Bool :=
  match cs with
  | ['Z'] => true
  | ['z'] => true
  | c :: rest =>
    let left := do
      let (_, rest) ← twoDigits? 23 rest
      let (_, rest) ← twoDigits? 59 (← expect? ':' rest)
      return rest
    (c = '+' ∨ c = '-') ∧ left = some []
  | [] => false

def isTimeOfDay (cs : List Char) : Bool :=
  match time? cs with
  | none => false
  | some rest => rest = [] ∨ isOffset rest

def isDateTime (cs : List Char) : Bool :=
  match date? cs with
  | some [] => true
  | some (c :: rest) => (c = 'T' ∨ c = 't') ∧ isTimeOfDay rest
  | none => time? cs = some []

def word? (cs : List Char) : Option Toml :=
  if cs = "true".toList then some (.boolean true)
  else if cs = "false".toList then some (.boolean false)
  else if isDateTime cs then some .dateTime
  else (float? cs).orElse fun _ => integer? cs

end CrossRef.Toml
