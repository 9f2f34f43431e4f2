namespace CrossRef

/-- Offsets and lengths are bytes. A `detail` is what the environment says about the cause. -/
inductive Fault
  | duplicateDeclaration (artifact binding path : String)
  | emptyArtifact (artifact : String)
  | brokenNesting (start stop bound : Nat)
  | invalidOffset (offset size : Nat)
  | duplicateReference (start length : Nat) (first second : String)
  | queueClosed (artifact : String)
  | producerFailed (reason : String)
  | storeUnavailable (detail : Option String)
  | queryFailed (reason : String)
  | malformedRecord
  | badSettings (reason : String)
  | inputOutput (detail : Option String)
  | artifactNotFound (artifact : String)
  | fileNotFound (artifact path : String)
  deriving DecidableEq, Repr

namespace Fault

def code : Fault → String
  | duplicateDeclaration .. => "E101"
  | emptyArtifact .. => "E102"
  | brokenNesting .. => "E103"
  | invalidOffset .. => "E104"
  | duplicateReference .. => "E105"
  | queueClosed .. => "E106"
  | producerFailed .. => "E107"
  | storeUnavailable .. => "E110"
  | queryFailed .. => "E111"
  | malformedRecord => "E112"
  | badSettings .. => "E120"
  | inputOutput .. => "E121"
  | artifactNotFound .. => "E130"
  | fileNotFound .. => "E131"

/-- Defects of the producer, of the rendered facts, of the queue, of the store, of the settings, of
the environment, and failed lookups. -/
def exitStatus : Fault → UInt8
  | duplicateDeclaration .. | emptyArtifact .. | duplicateReference .. => 1
  | brokenNesting .. | invalidOffset .. => 2
  | queueClosed .. | producerFailed .. => 3
  | storeUnavailable .. | queryFailed .. | malformedRecord => 4
  | badSettings .. => 5
  | inputOutput .. => 6
  | artifactNotFound .. | fileNotFound .. => 7

/-- Whether an artifact whose ingest meets this fault is left as it was and may be tried again. -/
def abortsArtifact : Fault → Bool
  | duplicateDeclaration .. | emptyArtifact .. | duplicateReference .. | queueClosed ..
  | producerFailed .. | queryFailed .. | malformedRecord => true
  | _ => false

def withDetail (summary : String) : Option String → String
  | none => summary
  | some detail => summary ++ ": " ++ detail

def summary : Fault → String
  | duplicateDeclaration artifact binding path =>
    s!"Duplicate declaration of {binding} in artifact {artifact} ({path})"
  | emptyArtifact artifact => s!"No source files on artifact {artifact}"
  | brokenNesting start stop bound =>
    s!"Broken nesting: fact {start}..{stop} exceeds enclosing bound {bound}"
  | invalidOffset offset size => s!"Invalid offset {offset} (text length {size})"
  | duplicateReference start length first second =>
    s!"Duplicate reference at {start}+{length}: {first} / {second}"
  | queueClosed artifact => s!"Transaction queue closed for artifact {artifact}"
  | producerFailed reason => s!"Producer task failed: {reason}"
  | storeUnavailable detail => withDetail "Failed to open index database" detail
  | queryFailed reason => s!"Index database query failed: {reason}"
  | malformedRecord => "Serialization failed"
  | badSettings reason => s!"Configuration error: {reason}"
  | inputOutput detail => withDetail "IO error" detail
  | artifactNotFound artifact => s!"Artifact not found: {artifact}"
  | fileNotFound artifact path => s!"Source file not found: {artifact}/{path}"

def message (fault : Fault) : String := fault.code ++ ": " ++ fault.summary

end Fault

end CrossRef
