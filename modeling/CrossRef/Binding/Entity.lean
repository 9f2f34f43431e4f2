import CrossRef.Binding

namespace CrossRef

/-- The erasure of a type as the front end reports it. -/
inductive ErasedType
  | unresolved
  | unsupported
  | named (qualified : String) (binary : Option String)
  deriving DecidableEq, Repr

/-- Local and anonymous types have no qualified name and go by their binary one. -/
def ErasedType.canonical? : ErasedType → Option String
  | .unresolved => none
  | .unsupported => none
  | .named qualified binary =>
    if qualified ≠ "" then some qualified else binary.filter fun name => name ≠ ""

/-- A resolved name; fields and locals are variables. -/
inductive Entity
  | type (erased : ErasedType)
  | variable (owner : Option ErasedType) (name : String)
  | method (owner : Option ErasedType) (name : String) (parameters : List ErasedType)
  | constructor (owner : Option ErasedType) (parameters : List ErasedType)
  deriving DecidableEq, Repr

namespace Entity

/-- Canonical names of all parameters between parentheses. -/
def signature? (parameters : List ErasedType) : Option String :=
  (parameters.mapM ErasedType.canonical?).map fun names => "(" ++ ",".intercalate names ++ ")"

def canonical? : Entity → Option Binding
  | .type erased => erased.canonical?.map Binding.mk
  | .variable owner name => do
    let owner ← (← owner).canonical?
    return ⟨owner ++ "#" ++ name⟩
  | .method owner name parameters => do
    let owner ← (← owner).canonical?
    let signature ← signature? parameters
    return ⟨owner ++ "#" ++ name ++ signature⟩
  | .constructor owner parameters => do
    let owner ← (← owner).canonical?
    let signature ← signature? parameters
    return ⟨owner ++ signature⟩

end Entity

end CrossRef
