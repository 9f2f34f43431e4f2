import CrossRef.Decimal

namespace CrossRef

/-- A number; `-0`, a fraction and an exponent make it a decimal, which is worth `significand` times
ten to the `exponent`. -/
inductive Json.Number
  | whole (n : Int)
  | decimal (negative : Bool) (significand : Nat) (exponent : Int)
  deriving DecidableEq, Repr

/-- A string, or nothing where its escapes name half of a surrogate pair. -/
abbrev Json.Text := Option String

/-- A value as its text spells it: members in order and with repetitions, whole numbers exact, other
numbers to the digits that a double is made from. -/
inductive Json
  | null
  | bool (b : Bool)
  | number (n : Json.Number)
  | text (t : Json.Text)
  | array (items : List Json)
  | object (members : List (Json.Text × Json))

namespace Json

def ofString (s : String) : Json := .text (some s)

def ofNat (n : Nat) : Json := .number (.whole n)

def ofInt (n : Int) : Json := .number (.whole n)

def record (members : List (String × Json)) : Json :=
  .object (members.map fun (name, j) => (some name, j))

def Number.isFinite : Number → Bool
  | .whole n =>
    if n.natAbs < UInt64.size then true
    else
      let (significand, exponent) := Decimal.leading (Nat.toDigits 10 n.natAbs) []
      Decimal.productIsFinite significand exponent
  | .decimal _ significand exponent => Decimal.productIsFinite significand exponent

end Json

end CrossRef
