import ShieldedWallet.Text.Numeral

/-!
# JSON tokens

The lexer takes a text character by character. Blanks are the space, tabulator, line feed and
carriage return. A number extends as far as characters continue it; a string ends at its quote.
-/

namespace ShieldedWallet.Json

/-- What a text is cut into. -/
inductive Token where
  | leftBrace
  | rightBrace
  | leftBracket
  | rightBracket
  | comma
  | colon
  | null
  | bool (b : Bool)
  | number (literal : List Char)
  | string (text : Option (List Char))
  /-- The rest of an item that broke off. -/
  | scrap
deriving DecidableEq

/-! ## Numbers -/

/-- The part of a number that has been read last. -/
inductive NumberPart where
  | minus
  | zero
  | integer
  | point
  | fraction
  | mark
  | sign
  | exponent
deriving DecidableEq

namespace NumberPart

/-- Whether the number may end here. -/
def isLast : NumberPart → Bool
  | .zero | .integer | .fraction | .exponent => true
  | .minus | .point | .mark | .sign => false

/-- Whether `c` introduces an exponent. -/
def isMark (c : Char) : Bool := c == 'e' || c == 'E'

/-- The part that `c` belongs to, if it continues the number. -/
def next? (p : NumberPart) (c : Char) : Option NumberPart :=
  match p with
  | .minus => if c = '0' then some .zero else if c.isDigit then some .integer else none
  | .zero => if c = '.' then some .point else if isMark c then some .mark else none
  | .integer =>
    if c.isDigit then some .integer
    else if c = '.' then some .point
    else if isMark c then some .mark
    else none
  | .point => if c.isDigit then some .fraction else none
  | .fraction =>
    if c.isDigit then some .fraction else if isMark c then some .mark else none
  | .mark =>
    if c.isDigit then some .exponent else if c = '+' ∨ c = '-' then some .sign else none
  | .sign | .exponent => if c.isDigit then some .exponent else none

/-- The part that `c` belongs to, if it begins a number. -/
def first? (c : Char) : Option NumberPart :=
  if c = '-' then some .minus else next? .minus c

end NumberPart

/-! ## Strings -/

/-- A part of a string literal: a character, or a code unit written as a `\u` escape. -/
inductive Piece where
  | char (c : Char)
  | unit (n : Nat)
deriving DecidableEq

/-- Whether `n` is the first half of a surrogate pair. -/
def isHighSurrogate (n : Nat) : Bool := 0xd800 ≤ n && n < 0xdc00

/-- Whether `n` is the second half of a surrogate pair. -/
def isLowSurrogate (n : Nat) : Bool := 0xdc00 ≤ n && n < 0xe000

/-- The character a surrogate pair stands for. -/
def ofSurrogates (high low : Nat) : Char :=
  Char.ofNat (0x10000 + (high - 0xd800) * 0x400 + (low - 0xdc00))

/-- The text the pieces make up, if every surrogate has its partner. -/
def textOfPieces : List Piece → Option (List Char)
  | [] => some []
  | .char c :: ps => (textOfPieces ps).map (c :: ·)
  | .unit n :: ps =>
    if isHighSurrogate n then
      match ps with
      | .unit m :: ps =>
        if isLowSurrogate m then (textOfPieces ps).map (ofSurrogates n m :: ·) else none
      | _ => none
    else if isLowSurrogate n then none
    else (textOfPieces ps).map (Char.ofNat n :: ·)

/-- The character a letter stands for after a backslash. -/
def shortEscape? (c : Char) : Option Char :=
  if c = '"' ∨ c = '\\' ∨ c = '/' then some c
  else if c = 'b' then some '\x08'
  else if c = 'f' then some '\x0c'
  else if c = 'n' then some '\n'
  else if c = 'r' then some '\r'
  else if c = 't' then some '\t'
  else none

/-! ## The lexer -/

/-- What the lexer is inside of. Pieces and literals are kept in reverse. -/
inductive Mode where
  | between
  /-- Inside a string. -/
  | string (pieces : List Piece)
  /-- Behind a backslash. -/
  | escape (pieces : List Piece)
  /-- Inside a `\u` escape of which `count` digits with the value `value` have been read. -/
  | code (pieces : List Piece) (count value : Nat)
  /-- Inside a number. -/
  | number (part : NumberPart) (literal : List Char)
  /-- Inside a word of which `letters` are still to come. -/
  | word (letters : List Char) (token : Token)
  /-- Behind an item that broke off, with which `count` more bytes are lost. -/
  | lost (count : Nat)

/-- Whether `c` means nothing between tokens. -/
def isBlank (c : Char) : Bool := c == ' ' || c == '\t' || c == '\n' || c == '\r'

namespace Mode

/-- Reads the character `c` between tokens. -/
def start? (c : Char) : Option (Mode × List Token) :=
  if isBlank c then some (.between, [])
  else if c = '\x7b' then some (.between, [.leftBrace])
  else if c = '\x7d' then some (.between, [.rightBrace])
  else if c = '[' then some (.between, [.leftBracket])
  else if c = ']' then some (.between, [.rightBracket])
  else if c = ',' then some (.between, [.comma])
  else if c = ':' then some (.between, [.colon])
  else if c = '"' then some (.string [], [])
  else if c = 'n' then some (.word ['u', 'l', 'l'] .null, [])
  else if c = 't' then some (.word ['r', 'u', 'e'] (.bool true), [])
  else if c = 'f' then some (.word ['a', 'l', 's', 'e'] (.bool false), [])
  else (NumberPart.first? c).map fun p => (.number p [c], [])

/-- Reads one character and gives the tokens that end with it. -/
def step? (m : Mode) (c : Char) : Option (Mode × List Token) :=
  match m with
  | .between => start? c
  | .string ps =>
    if c = '"' then some (.between, [.string (textOfPieces ps.reverse)])
    else if c = '\\' then some (.escape ps, [])
    else if c < ' ' then none
    else some (.string (.char c :: ps), [])
  | .escape ps =>
    if c = 'u' then some (.code ps 0 0, [])
    else (shortEscape? c).map fun d => (.string (.char d :: ps), [])
  | .code ps count value =>
    (Numeral.digit? 16 c).map fun d =>
      if count = 3 then (.string (.unit (value * 16 + d) :: ps), [])
      else (.code ps (count + 1) (value * 16 + d), [])
  | .number p cs =>
    match p.next? c with
    | some q => some (.number q (c :: cs), [])
    | none =>
      if p.isLast then (start? c).map fun (m, ts) => (m, .number cs.reverse :: ts) else none
  | .word letters t =>
    match letters with
    | d :: ds =>
      if c ≠ d then none
      else if ds = [] then some (.between, [t])
      else some (.word ds t, [])
    | [] => none
  | .lost n =>
    if n = 0 then start? c
    else if c.utf8Size ≤ n then some (.lost (n - c.utf8Size), [])
    else none

/-- The tokens that end with the text. -/
def finish? : Mode → Option (List Token)
  | .between | .lost 0 => some []
  | .number p cs => if p.isLast then some [.number cs.reverse] else none
  | .string _ | .escape _ | .code .. | .word .. | .lost _ => none

end Mode

end ShieldedWallet.Json
