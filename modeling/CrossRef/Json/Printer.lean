import CrossRef.Json.Value

namespace CrossRef.Json

def hexDigit (n : Nat) : Char := "0123456789abcdef".toList.getD n '0'

/-- Quotes, backslashes and control characters are escaped, with a short form where there is one. -/
def escapeChar (c : Char) : List Char :=
  match c with
  | '"' => ['\\', '"']
  | '\\' => ['\\', '\\']
  | '\x08' => ['\\', 'b']
  | '\x0c' => ['\\', 'f']
  | '\n' => ['\\', 'n']
  | '\r' => ['\\', 'r']
  | '\t' => ['\\', 't']
  | c =>
    if c.toNat < 0x20 then
      ['\\', 'u', '0', '0', hexDigit (c.toNat / 16), hexDigit (c.toNat % 16)]
    else [c]

/-- A string that is no text is written as one half of a pair. -/
def quote : Text → List Char
  | none => "\"\\ud800\"".toList
  | some s => '"' :: (s.toList.flatMap escapeChar ++ ['"'])

def Number.print : Number → List Char
  | .whole n => (toString n).toList
  | .decimal negative significand exponent =>
    (if negative then ['-'] else []) ++ (toString significand).toList ++
      'e' :: (toString exponent).toList

mutual

def print : Json → List Char
  | .null => "null".toList
  | .bool true => "true".toList
  | .bool false => "false".toList
  | .number n => n.print
  | .text t => quote t
  | .array items => '[' :: printItems items ++ [']']
  | .object members => '\x7b' :: printMembers members ++ ['\x7d']

def printItems : List Json → List Char
  | [] => []
  | [j] => print j
  | j :: k :: rest => print j ++ ',' :: printItems (k :: rest)

def printMembers : List (Text × Json) → List Char
  | [] => []
  | [(name, j)] => quote name ++ ':' :: print j
  | (name, j) :: m :: rest => quote name ++ ':' :: print j ++ ',' :: printMembers (m :: rest)

end

def compact (j : Json) : String := String.ofList (print j)

def lineBreak (level : Nat) : List Char := '\n' :: List.replicate (2 * level) ' '

mutual

def printPretty (level : Nat) : Json → List Char
  | .array (j :: rest) => '[' :: prettyItems (level + 1) (j :: rest) ++ lineBreak level ++ [']']
  | .object (m :: rest) =>
    '\x7b' :: prettyMembers (level + 1) (m :: rest) ++ lineBreak level ++ ['\x7d']
  | .array [] => ['[', ']']
  | .object [] => ['\x7b', '\x7d']
  | .null => "null".toList
  | .bool true => "true".toList
  | .bool false => "false".toList
  | .number n => n.print
  | .text t => quote t

def prettyItems (level : Nat) : List Json → List Char
  | [] => []
  | [j] => lineBreak level ++ printPretty level j
  | j :: k :: rest => lineBreak level ++ printPretty level j ++ ',' :: prettyItems level (k :: rest)

def prettyMembers (level : Nat) : List (Text × Json) → List Char
  | [] => []
  | [(name, j)] => lineBreak level ++ quote name ++ ':' :: ' ' :: printPretty level j
  | (name, j) :: m :: rest =>
    lineBreak level ++ quote name ++ ':' :: ' ' :: printPretty level j ++
      ',' :: prettyMembers level (m :: rest)

end

def pretty (j : Json) : String := String.ofList (printPretty 0 j)

end CrossRef.Json
