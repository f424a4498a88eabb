import ShieldedWallet.Json.Shape
import ShieldedWallet.Json.Surplus
import ShieldedWallet.Json.Value

/-!
# Reading JSON

The reader takes the tokens one by one and keeps a stack of the containers that are still open, so
it reads to any depth. It knows the shape that is expected of each value. Where a byte string is
complete, it passes over a surplus item; everywhere else it reads JSON and nothing more.
-/

namespace ShieldedWallet.Json

/-- An open container with what came before the value being read, in reverse. -/
inductive Frame where
  /-- An array, with what is expected of it from the item being read on. -/
  | array (shape : Shape) (before : List Json)
  /-- An object, with what is expected of it. -/
  | object (shape : Shape) (before : List (Option (List Char) × Json)) (key : Option (List Char))

/-- What the reader expects next, inside the open containers `stack`. -/
inductive Reader where
  | value (shape : Shape) (stack : List Frame)
  /-- The first item of an array, or its end. -/
  | firstItem (shape : Shape) (stack : List Frame)
  /-- The first member of an object, or its end. -/
  | firstMember (shape : Shape) (stack : List Frame)
  /-- A further member of an object. -/
  | member (shape : Shape) (stack : List Frame) (before : List (Option (List Char) × Json))
  /-- The colon behind the key of a member. -/
  | colon (shape : Shape) (stack : List Frame) (before : List (Option (List Char) × Json))
      (key : Option (List Char))
  /-- What follows the value `v`. -/
  | after (stack : List Frame) (v : Json)
  /-- A surplus item of an array with the items `items`, or its end. -/
  | surplus (stack : List Frame) (items : List Json)
  /-- The end of an array with the items `items`. -/
  | closing (stack : List Frame) (items : List Json)

namespace Reader

/-- Reads the first token of a value. -/
def begin (shape : Shape) (stack : List Frame) : Token → Option Reader
  | .null => some (.after stack .null)
  | .bool b => some (.after stack (.bool b))
  | .number literal => some (.after stack (.number literal))
  | .string s => some (.after stack (.string s))
  | .leftBracket => some (.firstItem shape stack)
  | .leftBrace => some (.firstMember shape stack)
  | .rightBracket | .rightBrace | .comma | .colon | .scrap => none

/-- What is expected behind the comma after an item of an array. -/
def nextItem (shape : Shape) (stack : List Frame) (before : List Json) : Reader :=
  match shape.rest with
  | .bytes 0 => .surplus stack before.reverse
  | shape => .value shape.item (.array shape before :: stack)

/-- Reads one token. -/
def step? : Reader → Token → Option Reader
  | .value shape stack, t => begin shape stack t
  | .firstItem _ stack, .rightBracket => some (.after stack (.array []))
  | .firstItem shape stack, t => begin shape.item (.array shape [] :: stack) t
  | .firstMember _ stack, .rightBrace => some (.after stack (.object []))
  | .firstMember shape stack, .string k => some (.colon shape stack [] k)
  | .firstMember .., _ => none
  | .member shape stack ms, .string k => some (.colon shape stack ms k)
  | .member .., _ => none
  | .colon shape stack ms k, .colon => some (.value (shape.member k) (.object shape ms k :: stack))
  | .colon .., _ => none
  | .after (.array shape vs :: stack) v, .comma => some (nextItem shape stack (v :: vs))
  | .after (.array _ vs :: stack) v, .rightBracket =>
    some (.after stack (.array (v :: vs).reverse))
  | .after (.object shape ms k :: stack) v, .comma => some (.member shape stack ((k, v) :: ms))
  | .after (.object _ ms k :: stack) v, .rightBrace =>
    some (.after stack (.object ((k, v) :: ms).reverse))
  | .after .., _ => none
  | .surplus stack vs, .rightBracket => some (.after stack (.array vs))
  | .surplus stack vs, t => if t.isPassed then some (.closing stack vs) else none
  | .closing stack vs, .rightBracket => some (.after stack (.array vs))
  | .closing .., _ => none

/-- Whether a surplus item may come next. -/
def isSated : Reader → Bool
  | .surplus .. => true
  | _ => false

/-- The value that has been read, if nothing is missing. -/
def result? : Reader → Option Json
  | .after [] v => some v
  | _ => none

end Reader

/-- How far a text has been read. -/
structure Progress where
  /-- What the lexer is inside of. -/
  mode : Mode
  /-- What the tokens so far have led to. -/
  reader : Reader

namespace Progress

/-- Reads one character. -/
def step? (p : Progress) (c : Char) : Option Progress := do
  let (mode, ts) ← if p.reader.isSated then p.mode.stepSurplus? c else p.mode.step? c
  let reader ← ts.foldlM Reader.step? p.reader
  return { mode, reader }

/-- The value of the text that has been read, if nothing is missing. -/
def result? (p : Progress) : Option Json := do
  let ts ← p.mode.finish?
  let reader ← ts.foldlM Reader.step? p.reader
  reader.result?

end Progress

/-- The value that a text denotes, for a reader who expects the given shape. -/
def parse? (shape : Shape) (s : String) : Option Json :=
  (s.toList.foldlM Progress.step? ⟨.between, .value shape []⟩).bind Progress.result?

end ShieldedWallet.Json
