namespace CrossRef.Paged

/-- A word of a definition; what stands in parentheses within a list is one word. -/
inductive Token
  | bare (name : String)
  | quoted (name : String)
  | number
  | mark (c : Char)
  | group
  deriving DecidableEq, Repr

namespace Token

def isBlank (c : Char) : Bool := c = ' ' ∨ c = '\t' ∨ c = '\n' ∨ c = '\x0c' ∨ c = '\r'

def startsName (c : Char) : Bool := c.isAlpha ∨ c = '_' ∨ 0x80 ≤ c.toNat

def continuesName (c : Char) : Bool := startsName c ∨ c.isDigit ∨ c = '$'

def reserved : List String :=
  ["add", "all", "alter", "and", "as", "autoincrement", "between", "case", "check", "collate",
    "commit", "constraint", "create", "default", "deferrable", "delete", "distinct", "drop", "else",
    "escape", "exists", "foreign", "from", "group", "having", "in", "index", "insert", "intersect",
    "into", "is", "isnull", "join", "limit", "not", "nothing", "notnull", "null", "on", "or",
    "order", "primary", "references", "returning", "select", "set", "table", "then", "to",
    "transaction", "union", "unique", "update", "using", "values", "when", "where"]

def name? : Token → Option String
  | .bare name => if name ∈ reserved then none else some name
  | .quoted name => some name
  | _ => none

/-- The character that ends what another one begins to quote: three quotation marks end what they
begin themselves. -/
def closing? (c : Char) : Option Char :=
  if c = '[' then some ']' else if c.toNat ∈ [0x22, 0x27, 0x60] then some c else none

/-- What is quoted, and the text behind it. The closing character stands for itself where it is
written twice; a bracket cannot. -/
def unquote? (close : Char) : List Char → Option (List Char × List Char)
  | [] => none
  | [c] => if c = close then some ([], []) else none
  | c :: d :: rest =>
    if c ≠ close then
      (unquote? close (d :: rest)).map fun (text, behind) => (c :: text, behind)
    else if d = close ∧ close ≠ ']' then
      (unquote? close rest).map fun (text, behind) => (c :: text, behind)
    else some ([], d :: rest)

def skipComment : List Char → List Char
  | '*' :: '/' :: rest => rest
  | _ :: rest => skipComment rest
  | [] => []

def lower (cs : List Char) : String := String.ofList (cs.map Char.toLower)

/-- The words of a text up to a semicolon; at most `fuel` characters and words are read. -/
def wordsOf? : Nat → List Char → Option (List Token)
  | 0, _ => none
  | _ + 1, [] => some []
  | fuel + 1, c :: rest =>
    if c = ';' then some []
    else if isBlank c then wordsOf? fuel rest
    else if c = '-' ∧ rest.head? = some '-' then wordsOf? fuel (rest.dropWhile (· ≠ '\n'))
    else if c = '/' ∧ rest.head? = some '*' then wordsOf? fuel (skipComment rest.tail)
    else if c.isDigit then
      (wordsOf? fuel (rest.dropWhile fun c => continuesName c ∨ c = '.')).map (.number :: ·)
    else if startsName c then
      (wordsOf? fuel (rest.dropWhile continuesName)).map
        (.bare (lower (c :: rest.takeWhile continuesName)) :: ·)
    else match closing? c with
      | some close => do
        let (text, behind) ← unquote? close rest
        return .quoted (lower text) :: (← wordsOf? fuel behind)
      | none =>
        if c ∈ "(),.+-*/%=<>|&~!".toList then (wordsOf? fuel rest).map (.mark c :: ·) else none

def ofText? (text : String) : Option (List Token) :=
  let cs := text.toList
  wordsOf? (cs.length + 1) cs

def consFirst (t : Token) : List (List Token) → List (List Token)
  | [] => [[t]]
  | part :: parts => (t :: part) :: parts

/-- The parts of a list between commas, up to the parenthesis that closes it, and the words behind.
The number says how many parentheses have been opened within. -/
def parts? : Nat → List Token → Option (List (List Token) × List Token)
  | _, [] => none
  | depth, t :: rest =>
    if t = .mark '(' then parts? (depth + 1) rest
    else if t = .mark ')' then
      match depth with
      | 0 => some ([[]], rest)
      | 1 => (parts? 0 rest).map fun (parts, behind) => (consFirst .group parts, behind)
      | depth + 1 => parts? depth rest
    else if depth ≠ 0 then parts? depth rest
    else (parts? 0 rest).map fun (parts, behind) =>
      (if t = .mark ',' then [] :: parts else consFirst t parts, behind)

end Token

inductive Clause
  | key
  | unique
  | other
  deriving DecidableEq, Repr

namespace Clause

def skipConflict : List Token → List Token
  | .bare "on" :: .bare "conflict" :: .bare _ :: rest => rest
  | rest => rest

def skipOrder : List Token → List Token
  | .bare "asc" :: rest => rest
  | .bare "desc" :: rest => rest
  | rest => rest

def skipGroup : List Token → List Token
  | .group :: rest => rest
  | rest => rest

/-- The words behind a value that is given by itself, with a sign, or in parentheses. -/
def skipDefault? : List Token → Option (List Token)
  | .mark '+' :: .number :: rest => some rest
  | .mark '-' :: .number :: rest => some rest
  | .mark _ :: _ => none
  | _ :: rest => some rest
  | [] => none

def ofColumn? : List Token → Option (Clause × List Token)
  | .bare word :: rest =>
    match word, rest with
    | "null", rest => some (.other, skipConflict rest)
    | "not", .bare "null" :: rest => some (.other, skipConflict rest)
    | "unique", rest => some (.unique, skipConflict rest)
    | "primary", .bare "key" :: rest => some (.key, skipConflict (skipOrder rest))
    | "check", .group :: rest => some (.other, rest)
    | "collate", name :: rest => name.name?.map fun _ => (.other, rest)
    | "constraint", name :: rest => name.name?.map fun _ => (.other, rest)
    | "references", name :: rest => name.name?.map fun _ => (.other, skipGroup rest)
    | "default", rest => (skipDefault? rest).map (.other, ·)
    | _, _ => none
  | _ => none

/-- The clauses on a column, of which there are at most `fuel`. -/
def ofColumns? : Nat → List Token → Option (List Clause)
  | _, [] => some []
  | 0, _ => none
  | fuel + 1, tokens => do
    let (clause, rest) ← ofColumn? tokens
    return clause :: (← ofColumns? fuel rest)

def ofTable? : List Token → Option Clause
  | .bare "constraint" :: name :: rest => (name.name?).bind fun _ => unnamed? rest
  | tokens => unnamed? tokens
where
  unnamed? : List Token → Option Clause
    | .bare "primary" :: .bare "key" :: .group :: rest => closed .key rest
    | .bare "unique" :: .group :: rest => closed .unique rest
    | .bare "check" :: .group :: rest => closed .other rest
    | .bare "foreign" :: .bare "key" :: .group :: .bare "references" :: name :: rest =>
      name.name?.bind fun _ => closed .other (skipGroup rest)
    | _ => none
  closed (clause : Clause) (rest : List Token) : Option Clause :=
    if skipConflict rest = [] then some clause else none

end Clause

/-- What a definition says. The indexes of a table that nobody names follow from its clauses; a
table may be kept in the order of its key, without numbers for its rows. -/
inductive Definition
  | table (name : String) (columns : List String) (indexes : Nat) (byKey : Bool)
  | index (name table : String) (columns : List String)
  | view (name : String)
  deriving DecidableEq, Repr

namespace Definition

def startsClause (tokens : List Token) : Bool :=
  tokens.head? ∈ ["constraint", "primary", "unique", "check", "foreign"].map (some ∘ Token.bare)

/-- The name of a column and its clauses. A whole number that is the key is the number of the row
and needs no index. -/
def column? (tokens : List Token) : Option (String × List Clause) := do
  let name ← (← tokens.head?).name?
  let kind := tokens.tail.takeWhile fun t => t.name?.isSome
  let rest := tokens.tail.drop kind.length
  let rest := if kind = [] then rest else Clause.skipGroup rest
  let clauses ← Clause.ofColumns? rest.length rest
  return (name, if kind = [.bare "integer"] then clauses.filter (· ≠ .key) else clauses)

def isByKey? : List Token → Option Bool
  | [] => some false
  | [.bare "without", .bare "rowid"] => some true
  | _ => none

def table? (tokens : List Token) : Option Definition := do
  let name ← (← tokens.head?).name?
  let .mark '(' :: rest := tokens.tail | none
  let (parts, behind) ← Token.parts? 0 rest
  let columns ← (parts.takeWhile (!startsClause ·)).mapM column?
  let clauses ← (parts.dropWhile (!startsClause ·)).mapM Clause.ofTable?
  let names := columns.map Prod.fst
  guard (names ≠ [] ∧ names.eraseDups = names)
  let asked := columns.flatMap Prod.snd ++ clauses
  guard (asked.count .key ≤ 1)
  return .table name names (asked.countP (· ≠ .other)) (← isByKey? behind)

def index? (tokens : List Token) : Option Definition := do
  let name :: .bare "on" :: owner :: .mark '(' :: rest := tokens | none
  let (parts, behind) ← Token.parts? 0 rest
  guard (behind = [] ∨ (behind.head? = some (.bare "where") ∧ behind.tail ≠ []))
  let columns ← parts.mapM fun part => part.head?.bind Token.name?
  return .index (← name.name?) (← owner.name?) columns

def view? (tokens : List Token) : Option Definition := do
  let name :: .bare "as" :: .bare "select" :: _ :: _ := tokens | none
  return .view (← name.name?)

def skipCondition : List Token → List Token
  | .bare "if" :: .bare "not" :: .bare "exists" :: rest => rest
  | rest => rest

def ofText? (text : String) : Option Definition := do
  let .bare "create" :: .bare what :: rest ← Token.ofText? text | none
  match what, rest with
  | "table", rest => table? (skipCondition rest)
  | "index", rest => index? (skipCondition rest)
  | "unique", .bare "index" :: rest => index? (skipCondition rest)
  | "view", rest => view? (skipCondition rest)
  | _, _ => none

end Definition

end CrossRef.Paged
