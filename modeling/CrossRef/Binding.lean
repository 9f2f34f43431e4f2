import CrossRef.Digest.Sha256

namespace CrossRef

/-- The identity of a symbol: `java.util.Map` for a type, `A#f` for a field, `A#x(int)` for a method,
`A(int)` for a constructor. -/
structure Binding where
  text : String
  deriving DecidableEq, Repr

namespace Binding

def isType (b : Binding) : Bool := b.text.toList.all fun c => c ≠ '#' ∧ c ≠ '('

/-- The number that eight bytes spell, highest byte first. -/
def number (bytes : List UInt8) : UInt64 :=
  bytes.foldl (fun (n : UInt64) byte => n <<< 8 ||| byte.toUInt64) 0

/-- The signed number a binding is looked up by: the first eight bytes of its digest. -/
def key (b : Binding) : Int64 := (number ((Digest.ofText b.text).take 8)).toInt64

end Binding

end CrossRef
