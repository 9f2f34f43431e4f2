import CrossRef.Fault
import CrossRef.Store.Row

namespace CrossRef.Feed

/-- What a producer may ask of a transaction. -/
inductive Call
  | clearArtifact (artifact : String)
  | insertArtifact (artifact : String) (version : Int64)
  | insertDependency (artifact target : String)
  | insertAlias (artifact name : String)
  | insertFile (artifact : String) (row : Store.SourceRow)
  | insertDeclaration (row : Store.DeclarationRow)
  | insertReference (row : Store.ReferenceRow)
  deriving DecidableEq, Repr

/-- How calls are carried out: `σ` is what a transaction starts from and leaves behind, `τ` is the
transaction while it is open. A commit that fails leaves what a rollback leaves. -/
structure Provider (σ τ : Type) where
  begin : String → σ → Except Fault τ
  apply : Call → τ → Except Fault Unit × τ
  commit : τ → Except Fault Unit × σ
  rollback : τ → σ

end CrossRef.Feed
