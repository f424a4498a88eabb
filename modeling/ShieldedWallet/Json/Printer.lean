import ShieldedWallet.Json.Value

/-!
# Printing JSON

The compact form: no blanks, members in their order. In a string, quotes, backslashes and characters
below the blank are escaped, five of them by a letter and the others by their code; everything else
stands for itself.
-/

namespace ShieldedWallet.Json

/-- The escape `\u00xx` of a character below 256. -/
def codeEscape (c : Char) : List Char :=
  ['\\', 'u', '0', '0', (c.toNat / 16).digitChar, (c.toNat % 16).digitChar]

/-- A character inside a string literal. -/
def escaped (c : Char) : List Char :=
  if c = '"' then ['\\', '"']
  else if c = '\\' then ['\\', '\\']
  else if c = '\x08' then ['\\', 'b']
  else if c = '\x0c' then ['\\', 'f']
  else if c = '\n' then ['\\', 'n']
  else if c = '\r' then ['\\', 'r']
  else if c = '\t' then ['\\', 't']
  else if c < ' ' then codeEscape c
  else [c]

/-- A string literal. A string without a text is printed as a lone surrogate escape. -/
def quoted : Option (List Char) → List Char
  | some cs => '"' :: cs.flatMap escaped ++ ['"']
  | none => ['"', '\\', 'u', 'd', '8', '0', '0', '"']

mutual

/-- The compact text of a value. -/
def print : Json → List Char
  | .null => ['n', 'u', 'l', 'l']
  | .bool true => ['t', 'r', 'u', 'e']
  | .bool false => ['f', 'a', 'l', 's', 'e']
  | .number literal => literal
  | .string s => quoted s
  | .array [] => ['[', ']']
  | .array (v :: vs) => '[' :: print v ++ printItems vs
  | .object [] => ['\x7b', '\x7d']
  | .object ((k, v) :: ms) => '\x7b' :: quoted k ++ ':' :: print v ++ printMembers ms

/-- The further items of an array and its end. -/
def printItems : List Json → List Char
  | [] => [']']
  | v :: vs => ',' :: print v ++ printItems vs

/-- The further members of an object and its end. -/
def printMembers : List (Option (List Char) × Json) → List Char
  | [] => ['\x7d']
  | (k, v) :: ms => ',' :: quoted k ++ ':' :: print v ++ printMembers ms

end

/-- The compact text of a value. -/
def render (v : Json) : String := String.ofList v.print

end ShieldedWallet.Json
