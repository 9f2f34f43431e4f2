import CrossRef.Json.Value

/-!
The rules by which JSON values stand for records. A record is an object of named fields or an array
of the field values in order; of an object, fields that the record does not have are passed over.
A tagged record names its shape in one member, or in the first item of an array, and is taken in
whole before its shape is known, so all of it must be within the limits of depth and range.
-/

namespace CrossRef.Json

def depthLimit : Nat := 127

mutual

/-- Whether a value can be taken in whole where `room` more levels may open: its strings and keys
are texts and its numbers are finite. -/
def fits (room : Nat) : Json → Bool
  | .null => true
  | .bool _ => true
  | .number n => n.isFinite
  | .text t => t.isSome
  | .array items => room ≠ 0 && itemsFit (room - 1) items
  | .object members => room ≠ 0 && membersFit (room - 1) members

def itemsFit (room : Nat) : List Json → Bool
  | [] => true
  | j :: rest => fits room j && itemsFit room rest

def membersFit (room : Nat) : List (Text × Json) → Bool
  | [] => true
  | (name, j) :: rest => name.isSome && fits room j && membersFit room rest

end

/-- The member of a name, which may occur once at most. -/
def member? (name : String) (members : List (Text × Json)) : Option (Option Json) :=
  match members.filter fun (key, _) => key = some name with
  | [] => some none
  | [(_, j)] => some (some j)
  | _ => none

/-- The values of the fields `names`, in that order; a field that is left out has none. -/
def fields? (names : List String) : Json → Option (List (Option Json))
  | .object members =>
    if members.all fun (key, _) => key.isSome then names.mapM fun name => member? name members
    else none
  | .array items =>
    if items.length ≤ names.length then
      some (items.map some ++ List.replicate (names.length - items.length) none)
    else none
  | _ => none

/-- Splits a tagged record into its tag and the record without it. -/
def untag? (tag : String) : Json → Option (Json × Json)
  | .object members => do
    let shape ← (← member? tag members)
    return (shape, .object (members.filter fun (key, _) => key ≠ some tag))
  | .array (shape :: items) => some (shape, .array items)
  | _ => none

/-- The position of a tag among the shapes. Within a value already taken in whole, a shape may also
be given by its position. -/
def shape? (shapes : List String) (within : Bool) : Json → Option Nat
  | .text (some name) => shapes.findIdx? (· = name)
  | .number (.whole n) => if within ∧ 0 ≤ n ∧ n < shapes.length then some n.toNat else none
  | _ => none

def bool? : Json → Option Bool
  | .bool b => some b
  | _ => none

def string? : Json → Option String
  | .text t => t
  | _ => none

def nat? (limit : Nat) : Json → Option Nat
  | .number (.whole n) => if 0 ≤ n ∧ n < limit then some n.toNat else none
  | _ => none

def uint8? (j : Json) : Option UInt8 := (nat? UInt8.size j).map UInt8.ofNat

def uint32? (j : Json) : Option UInt32 := (nat? UInt32.size j).map UInt32.ofNat

def uint64? (j : Json) : Option UInt64 := (nat? UInt64.size j).map UInt64.ofNat

def int64? : Json → Option Int64
  | .number (.whole n) => if Int64.minValue.toInt ≤ n ∧ n ≤ Int64.maxValue.toInt then some (Int64.ofInt n) else none
  | _ => none

def list? {α : Type} (item? : Json → Option α) : Json → Option (List α)
  | .array items => items.mapM item?
  | _ => none

def pairs? {α : Type} (value? : Json → Option α) : Json → Option (List (String × α))
  | .object members => members.mapM fun (key, j) => do return (← key, ← value? j)
  | _ => none

def required {α : Type} (value? : Json → Option α) (field : Option Json) : Option α :=
  field.bind value?

def optional {α : Type} (default : α) (value? : Json → Option α) : Option Json → Option α
  | none => some default
  | some j => value? j

end CrossRef.Json
