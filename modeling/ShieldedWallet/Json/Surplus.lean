import ShieldedWallet.Json.Token

/-!
# Surplus items

Behind the last byte of a byte string one more item may stand in the array, provided that it is no
byte and neither an array nor an object: whoever reads the bytes tries to read it as another one and
goes on when that fails. The item need not even be JSON. If it breaks off, it does so at the first
character that cannot continue it, some bytes are lost with it, and the end of the array has to
follow behind them. A comma alone, without an item, passes as well.
-/

namespace ShieldedWallet.Json

/-- Whether a reader of bytes leaves the number with the literal `cs` before its end: the number is
not zero, and its exponent passes `2^31 - 1` before the last digit. -/
def isLeftEarly (cs : List Char) : Bool :=
  let significand := cs.takeWhile (!NumberPart.isMark ·)
  let exponent := Numeral.dropPlus ((cs.dropWhile (!NumberPart.isMark ·)).drop 1)
  (significand.any fun c => c.isDigit && c != '0') &&
    (Numeral.digits? 10 exponent.dropLast).any (2147483647 < ·)

/-- Whether a token passes as a surplus item. -/
def Token.isPassed : Token → Bool
  | .null | .bool _ | .string _ | .scrap => true
  | .number cs => !(Numeral.digits? 10 cs).any (· < UInt8.size) && !isLeftEarly cs
  | .leftBrace | .rightBrace | .leftBracket | .rightBracket | .comma | .colon => false

/-- Whether the pieces of a string, in reverse, end in the first half of a surrogate pair. -/
def endsHalved : List Piece → Bool
  | .unit n :: _ => isHighSurrogate n
  | [] | .char _ :: _ => false

namespace Mode

/-- How many bytes are lost, from the character `c` on, with a surplus item that breaks off there.
A surplus string has to make up a text, so it breaks off where the partner of a surrogate is
missing. The character that does not fit is lost, if it is one byte long. Only behind a decimal
point it stays to be read, and the four bytes of a code escape are lost together. -/
def loss? (m : Mode) (c : Char) : Option Nat :=
  match m with
  | .between | .lost _ => none
  | .number p _ =>
    if p.isLast ∨ (p.next? c).isSome then none else some (if p = .point then 0 else 1)
  | .word letters _ => if letters.head? = some c then none else some 1
  | .string ps =>
    if c < ' ' ∨ endsHalved ps ∧ c ≠ '\\' ∧ c ≠ '"' then some 1 else none
  | .escape ps =>
    if c ≠ 'u' ∧ (endsHalved ps ∨ (shortEscape? c).isNone) then some 1 else none
  | .code ps count value =>
    match Numeral.digit? 16 c with
    | none => some (4 - count)
    | some d =>
      if count = 3 ∧ isLowSurrogate (value * 16 + d) ≠ endsHalved ps then some 1 else none

/-- Reads one character of a surplus item. -/
def stepSurplus? (m : Mode) (c : Char) : Option (Mode × List Token) :=
  match m.loss? c with
  | some n => ((Mode.lost n).step? c).map fun (m, ts) => (m, .scrap :: ts)
  | none => m.step? c

end Mode

end ShieldedWallet.Json
