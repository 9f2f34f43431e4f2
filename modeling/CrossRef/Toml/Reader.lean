import CrossRef.Toml.Draft
import CrossRef.Toml.Scalar

namespace CrossRef.Toml

/-- Levels of arrays and inline tables, and parts of a dotted key, are fewer than this. -/
def depthLimit : Nat := 80

def isBlank (c : Char) : Bool := c = ' ' ∨ c = '\t'

def skipBlanks (cs : List Char) : List Char := cs.dropWhile isBlank

def isPlain (c : Char) : Bool := c = '\t' ∨ (0x20 ≤ c.toNat ∧ c.toNat ≠ 0x7f)

def readNewline : List Char → Option (List Char)
  | '\n' :: rest => some rest
  | '\r' :: '\n' :: rest => some rest
  | _ => none

def skipComment : List Char → List Char
  | '#' :: rest => rest.dropWhile isPlain
  | cs => cs

/-- The end of a line, or of the text, behind blanks and a comment. -/
def readLineEnd (cs : List Char) : Option (List Char) :=
  match skipComment (skipBlanks cs) with
  | [] => some []
  | rest => readNewline rest

def skipSpace : Nat → List Char → List Char
  | 0, cs => cs
  | n + 1, cs =>
    match cs with
    | '#' :: rest => skipSpace n (rest.dropWhile isPlain)
    | ' ' :: rest => skipSpace n rest
    | '\t' :: rest => skipSpace n rest
    | cs => match readNewline cs with
      | some rest => skipSpace n rest
      | none => cs

def shortEscape? : Char → Option Char
  | 'b' => some '\x08'
  | 't' => some '\t'
  | 'n' => some '\n'
  | 'f' => some '\x0c'
  | 'r' => some '\r'
  | '"' => some '"'
  | '\\' => some '\\'
  | _ => none

/-- The character of a code point; halves of surrogate pairs are none. -/
def scalar? (digits : List Char) : Option Char := do
  let n ← Decimal.natOfHex? digits
  if n.isValidChar then some (Char.ofNat n) else none

def readEscape : List Char → Option (Char × List Char)
  | 'u' :: a :: b :: c :: d :: rest => (scalar? [a, b, c, d]).map (·, rest)
  | 'U' :: a :: b :: c :: d :: e :: f :: g :: h :: rest =>
    (scalar? [a, b, c, d, e, f, g, h]).map (·, rest)
  | c :: rest => (shortEscape? c).map (·, rest)
  | [] => none

def readQuoted : Nat → List Char → Option (List Char × List Char)
  | 0, _ => none
  | n + 1, cs =>
    match cs with
    | '"' :: rest => some ([], rest)
    | '\\' :: rest => do
      let (c, rest) ← readEscape rest
      let (inner, rest) ← readQuoted n rest
      return (c :: inner, rest)
    | c :: rest =>
      if isPlain c then (readQuoted n rest).map fun (inner, rest) => (c :: inner, rest) else none
    | [] => none

/-- The inside of a literal string of one line, in which a backslash is nothing special. -/
def readLiteral : List Char → Option (List Char × List Char)
  | [] => none
  | '\'' :: rest => some ([], rest)
  | c :: rest =>
    if isPlain c then (readLiteral rest).map fun (inner, rest) => (c :: inner, rest) else none

/-- The rest of a string of several lines behind a backslash at the end of a line: blanks and line
ends are skipped. -/
def skipFold (n : Nat) (cs : List Char) : Option (List Char) :=
  (readNewline (skipBlanks cs)).map fun rest => skipFoldedLines n rest
where
  skipFoldedLines : Nat → List Char → List Char
    | 0, cs => cs
    | n + 1, cs => match readNewline (skipBlanks cs) with
      | some rest => skipFoldedLines n rest
      | none => skipBlanks cs

/-- The inside of a string of several lines, up to its three closing quotes `q`; one or two more may
belong to the string. Only between double quotes does a backslash escape. -/
def readLines (q : Char) : Nat → List Char → Option (List Char × List Char)
  | 0, _ => none
  | n + 1, cs =>
    let quotes := (cs.takeWhile (· = q)).length
    if 3 ≤ quotes then
      if quotes ≤ 5 then some (List.replicate (quotes - 3) q, cs.drop quotes) else none
    else
      match cs with
      | [] => none
      | '\\' :: rest =>
        if q = '"' then
          match skipFold n rest with
          | some rest => readLines q n rest
          | none => do
            let (c, rest) ← readEscape rest
            let (inner, rest) ← readLines q n rest
            return (c :: inner, rest)
        else (readLines q n rest).map fun (inner, rest) => ('\\' :: inner, rest)
      | c :: rest => do
        let (c, rest) ← match readNewline cs with
          | some rest => some ('\n', rest)
          | none => if isPlain c then some (c, rest) else none
        let (inner, rest) ← readLines q n rest
        return (c :: inner, rest)

/-- A string of several lines behind its opening quotes; a line end that comes first is skipped. -/
def readBlock (q : Char) (cs : List Char) : Option (List Char × List Char) :=
  let cs := (readNewline cs).getD cs
  readLines q (cs.length + 1) cs

def readString : List Char → Option (String × List Char)
  | '"' :: '"' :: '"' :: rest =>
    (readBlock '"' rest).map fun (cs, rest) => (String.ofList cs, rest)
  | '\'' :: '\'' :: '\'' :: rest =>
    (readBlock '\'' rest).map fun (cs, rest) => (String.ofList cs, rest)
  | '"' :: rest =>
    (readQuoted (rest.length + 1) rest).map fun (cs, rest) => (String.ofList cs, rest)
  | '\'' :: rest => (readLiteral rest).map fun (cs, rest) => (String.ofList cs, rest)
  | _ => none

def isBareKeyChar (c : Char) : Bool := c.isAlphanum ∨ c = '-' ∨ c = '_'

/-- One part of a key: a quoted string of one line or a bare word. -/
def readKeyPart : List Char → Option (String × List Char)
  | '"' :: rest =>
    (readQuoted (rest.length + 1) rest).map fun (cs, rest) => (String.ofList cs, rest)
  | '\'' :: rest => (readLiteral rest).map fun (cs, rest) => (String.ofList cs, rest)
  | cs =>
    match cs.takeWhile isBareKeyChar with
    | [] => none
    | part => some (String.ofList part, cs.dropWhile isBareKeyChar)

/-- A key of at most `n` parts with points between them, with the blanks around the parts. -/
def readKey : Nat → List Char → Option (List String × List Char)
  | 0, _ => none
  | n + 1, cs => do
    let (part, rest) ← readKeyPart (skipBlanks cs)
    match skipBlanks rest with
    | '.' :: rest =>
      let (parts, rest) ← readKey n rest
      return (part :: parts, rest)
    | rest => return ([part], rest)

def readPath (cs : List Char) : Option (List String × String × List Char) := do
  let (parts, rest) ← readKey (depthLimit - 1) cs
  return (parts.dropLast, ← parts.getLast?, rest)

def isWordEnd (c : Char) : Bool :=
  isBlank c ∨ c = '\n' ∨ c = '\r' ∨ c = '#' ∨ c = ',' ∨ c = ']' ∨ c = '\x7d'

/-- A value of one word. A date may have its time in a word of its own, behind a single blank. -/
def readWord (cs : List Char) : Option (Toml × List Char) :=
  let word := cs.takeWhile fun c => !isWordEnd c
  let rest := cs.dropWhile fun c => !isWordEnd c
  match date? word, rest with
  | some [], ' ' :: behind =>
    let time := behind.takeWhile fun c => !isWordEnd c
    if time = [] then some (.dateTime, rest)
    else if isTimeOfDay time then some (.dateTime, behind.drop time.length)
    else none
  | _, _ => (word? word).map (·, rest)

mutual

/-- A value inside of which `room` more levels may open; `n` bounds the calls still to come. -/
def readValue (room : Nat) : Nat → List Char → Option (Toml × List Char)
  | 0, _ => none
  | n + 1, cs =>
    match cs with
    | '"' :: _ => (readString cs).map fun (s, rest) => (.string s, rest)
    | '\'' :: _ => (readString cs).map fun (s, rest) => (.string s, rest)
    | '[' :: rest =>
      if room = 0 then none
      else (readItems (room - 1) n rest).map fun (items, rest) => (.array items, rest)
    | '\x7b' :: rest =>
      if room = 0 then none
      else match skipBlanks rest with
        | '\x7d' :: rest => some (.table [], rest)
        | rest => do
          let (d, rest) ← readPairs (room - 1) n (.table .defined []) rest
          return (d.toToml, rest)
    | cs => readWord cs

def readItems (room : Nat) : Nat → List Char → Option (List Toml × List Char)
  | 0, _ => none
  | n + 1, cs =>
    match skipSpace cs.length cs with
    | ']' :: rest => some ([], rest)
    | cs => do
      let (item, rest) ← readValue room n cs
      match skipSpace rest.length rest with
      | ',' :: rest =>
        let (items, rest) ← readItems room n rest
        return (item :: items, rest)
      | ']' :: rest => return ([item], rest)
      | _ => none

/-- Pairs of an inline table up to the closing brace, at least one, added to what the table has. -/
def readPairs (room : Nat) : Nat → Draft → List Char → Option (Draft × List Char)
  | 0, _, _ => none
  | n + 1, d, cs => do
    let (path, key, rest) ← readPath cs
    let '=' :: rest := rest | none
    let (v, rest) ← readValue room n (skipBlanks rest)
    let d ← d.assign path key v
    match skipBlanks rest with
    | ',' :: rest => readPairs room n d rest
    | '\x7d' :: rest => return (d, rest)
    | _ => none

end

def readAssignment (header : List String) (d : Draft) (cs : List Char) :
    Option (Draft × List Char) := do
  let (path, key, rest) ← readPath cs
  let '=' :: rest := rest | none
  let rest := skipBlanks rest
  let (v, rest) ← readValue (depthLimit - 1) (2 * rest.length + 1) rest
  let rest ← readLineEnd rest
  return (← d.within header (Draft.assign path key v), rest)

/-- A header behind its first bracket, and the path it puts in force. -/
def readHeader (d : Draft) : List Char → Option (List String × Draft × List Char)
  | '[' :: cs => do
    let (path, key, rest) ← readPath cs
    let ']' :: ']' :: rest := rest | none
    return (path ++ [key], ← d.appendTable path key, ← readLineEnd rest)
  | cs => do
    let (path, key, rest) ← readPath cs
    let ']' :: rest := rest | none
    return (path ++ [key], ← d.openTable path key, ← readLineEnd rest)

def readLinesOf : Nat → List String → Draft → List Char → Option Draft
  | 0, _, _, _ => none
  | n + 1, header, d, cs =>
    match skipBlanks cs with
    | [] => some d
    | '#' :: rest => match rest.dropWhile isPlain with
      | [] => some d
      | rest => (readNewline rest).bind (readLinesOf n header d)
    | '[' :: rest => do
      let (header, d, rest) ← readHeader d rest
      readLinesOf n header d rest
    | rest => match readNewline rest with
      | some rest => readLinesOf n header d rest
      | none => do
        let (d, rest) ← readAssignment header d rest
        readLinesOf n header d rest

/-- A whole document, behind a byte-order mark if there is one. -/
def parse? (text : String) : Option Toml :=
  let cs := match text.toList with
    | '\ufeff' :: rest => rest
    | cs => cs
  (readLinesOf (cs.length + 1) [] (.table .defined []) cs).map Draft.toToml

end CrossRef.Toml
