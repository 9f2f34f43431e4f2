import CrossRef.Decimal
import CrossRef.Text

namespace CrossRef.Text.Percent

def isUnreserved (b : UInt8) : Bool :=
  let c := Char.ofNat b.toNat
  b < 0x80 ∧ (c.isAlphanum ∨ c = '-' ∨ c = '.' ∨ c = '_' ∨ c = '~')

def hexDigit (n : Nat) : Char := "0123456789ABCDEF".toList.getD n '0'

def encodeByte (b : UInt8) : List Char :=
  if isUnreserved b then [Char.ofNat b.toNat]
  else ['%', hexDigit (b.toNat / 16), hexDigit (b.toNat % 16)]

/-- Letters, digits and `-._~` of ASCII stand for themselves; every other byte is written as `%` and
two digits. -/
def encode (text : String) : String := String.ofList ((bytes text.toList).flatMap encodeByte)

/-- The bytes that a coded text stands for. Digits of either case are read; a `%` that they do not
follow stands for itself. -/
def decode : List Char → List UInt8
  | '%' :: a :: b :: rest =>
    match Decimal.hexValue? a, Decimal.hexValue? b with
    | some high, some low => UInt8.ofNat (16 * high + low) :: decode rest
    | _, _ => String.utf8EncodeChar '%' ++ decode (a :: b :: rest)
  | c :: rest => String.utf8EncodeChar c ++ decode rest
  | [] => []

end CrossRef.Text.Percent
