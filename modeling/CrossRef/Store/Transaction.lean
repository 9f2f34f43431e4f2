import CrossRef.Feed.Call
import CrossRef.Store

namespace CrossRef.Store

/-- An open transaction on a copy of the tables of `base`. Declarations and references are held back
and stored in batches; a binding in `declared` is refused at once. -/
structure Transaction where
  base : Store
  tables : Tables
  declared : List Binding
  heldDeclarations : List DeclarationRow
  heldReferences : List ReferenceRow

namespace Transaction

def start (s : Store) : Transaction := ⟨s, s.tables, [], [], []⟩

/-- Rows held back before a batch is stored; there is always room for one. -/
def batchSize (tx : Transaction) : Nat := max tx.base.batchSize 1

/-- Stores the declarations held back. Of a batch that fails, the rows behind the failing one are
lost. -/
def flushDeclarations (tx : Transaction) : Except Fault Unit × Transaction :=
  let (outcome, tables) := tx.tables.insertDeclarations tx.base.key tx.heldDeclarations
  (outcome, { tx with tables := tables, heldDeclarations := [] })

def flushReferences (tx : Transaction) : Transaction :=
  { tx with
    tables := tx.tables.insertReferences tx.base.key tx.heldReferences
    heldReferences := [] }

def clear (artifact : String) (tx : Transaction) : Transaction :=
  { tx with
    tables := tx.tables.clear artifact
    declared := []
    heldDeclarations := tx.heldDeclarations.filter fun row => row.artifact ≠ artifact
    heldReferences := tx.heldReferences.filter fun row => row.artifact ≠ artifact }

def declare (row : DeclarationRow) (tx : Transaction) : Except Fault Unit × Transaction :=
  if row.binding ∈ tx.declared then
    (.error (.duplicateDeclaration row.artifact row.binding.text row.file), tx)
  else
    let tx := { tx with
      declared := row.binding :: tx.declared
      heldDeclarations := tx.heldDeclarations ++ [row] }
    if tx.batchSize ≤ tx.heldDeclarations.length then tx.flushDeclarations else (.ok (), tx)

def refer (row : ReferenceRow) (tx : Transaction) : Transaction :=
  let tx := { tx with heldReferences := tx.heldReferences ++ [row] }
  if tx.batchSize ≤ tx.heldReferences.length then tx.flushReferences else tx

/-- Puts the result of a statement on the tables into place; a statement that fails changes
nothing. -/
def store (result : Except Fault Tables) (tx : Transaction) : Except Fault Unit × Transaction :=
  match result with
  | .ok tables => (.ok (), { tx with tables := tables })
  | .error fault => (.error fault, tx)

def apply (call : Feed.Call) (tx : Transaction) : Except Fault Unit × Transaction :=
  match call with
  | .clearArtifact artifact => (.ok (), tx.clear artifact)
  | .insertArtifact artifact version => tx.store (tx.tables.insertArtifact artifact version)
  | .insertDependency artifact target => tx.store (.ok (tx.tables.insertDependency artifact target))
  | .insertAlias artifact name => tx.store (.ok (tx.tables.insertAlias artifact name))
  | .insertFile artifact row => tx.store (tx.tables.insertFile artifact row)
  | .insertDeclaration row => tx.declare row
  | .insertReference row => (.ok (), tx.refer row)

/-- Stores what is held back and keeps the tables, or gives up all of the transaction. -/
def commit (tx : Transaction) : Except Fault Unit × Store :=
  match tx.flushDeclarations with
  | (.error fault, _) => (.error fault, tx.base)
  | (.ok (), tx) => (.ok (), { tx.base with tables := tx.flushReferences.tables })

def rollback (tx : Transaction) : Store := tx.base

end Transaction

def provider : Feed.Provider Store Transaction where
  begin _ s := .ok (.start s)
  apply := Transaction.apply
  commit := Transaction.commit
  rollback := Transaction.rollback

end CrossRef.Store
