import CrossRef.Binding
import CrossRef.Catalog
import CrossRef.Fact.Kind

namespace CrossRef

inductive Payload
  | declaration (binding : Binding)
  | reference (binding : Binding) (kind : ReferenceKind) (id : UInt32)
  | style (classes : TextSet)
  | localVariable (id : String)
  deriving DecidableEq

def Payload.binding? : Payload → Option Binding
  | .declaration binding => some binding
  | .reference binding _ _ => some binding
  | .style _ => none
  | .localVariable _ => none

/-- A payload of `length` bytes from `start` on. -/
structure Fact where
  start : UInt32
  length : UInt32
  payload : Payload
  deriving DecidableEq

/-- The offset behind the last byte; it may pass the 32-bit range. -/
def Fact.stop (f : Fact) : Nat := f.start.toNat + f.length.toNat

structure Mention where
  start : UInt32
  target : Binding
  kind : ReferenceKind
  id : UInt32
  deriving DecidableEq

structure SourceFile where
  text : String
  facts : List Fact
  deriving DecidableEq

namespace SourceFile

def annotate (file : SourceFile) (fact : Fact) : SourceFile :=
  { file with facts := file.facts ++ [fact] }

def declarations (file : SourceFile) : List (UInt32 × Binding) :=
  file.facts.filterMap fun f => match f.payload with
    | .declaration binding => some (f.start, binding)
    | _ => none

def mentions (file : SourceFile) : List Mention :=
  file.facts.filterMap fun f => match f.payload with
    | .reference binding kind id => some ⟨f.start, binding, kind, id⟩
    | _ => none

end SourceFile

end CrossRef
