import ShieldedWallet.Bytes.Hex
import ShieldedWallet.Json.Shape
import ShieldedWallet.Json.Value
import ShieldedWallet.Number.Scalar

/-!
# Values in JSON

A codec says how the values of a type stand in JSON. Big integers are strings, either decimal or
hexadecimal, since number literals lose precision in many readers; machine words and bytes are
number literals; byte strings of known length are hexadecimal strings or arrays of bytes.
-/

namespace ShieldedWallet

/-- How values of `α` stand in JSON. -/
structure Codec (α : Type) where
  /-- The form in which a value is written. -/
  write : α → Json
  /-- The value that a form denotes. -/
  read? : Json → Option α
  /-- What is expected of a form that is read from a text. -/
  shape : Json.Shape := .any

namespace Codec

variable {α : Type}

/-- Reading gives back what was written. -/
def Faithful (c : Codec α) : Prop := ∀ a, c.read? (c.write a) = some a

/-- A number written without sign, fraction and exponent. -/
def natural? : Json → Option Nat
  | .number cs => if cs.all Char.isDigit then Numeral.digits? 10 cs else none
  | _ => none

def text : Codec String where
  write := Json.text
  read? := Json.text?

/-- A value in a notation of its own, as a string. -/
def notated (print : α → String) (read? : String → Option α) : Codec α where
  write a := .text (print a)
  read? j := j.text?.bind read?

/-- An amount as a decimal string. -/
def decimalAmount : Codec UInt256 := notated UInt256.text UInt256.ofText?

/-- A field element as a decimal string. -/
def decimalScalar : Codec Scalar := notated Scalar.text fun s => (Scalar.ofText s).toOption

/-- A machine word as a decimal string. -/
def decimalWord : Codec UInt64 := notated (fun n => Numeral.decimal n.toNat) Numeral.word64?

/-- A machine word as a number. -/
def word64 : Codec UInt64 where
  write n := .nat n.toNat
  read? j := (natural? j).bind fun n => if n < UInt64.size then some (UInt64.ofNat n) else none

/-- A half word as a number. -/
def word32 : Codec UInt32 where
  write n := .nat n.toNat
  read? j := (natural? j).bind fun n => if n < UInt32.size then some (UInt32.ofNat n) else none

/-- A byte as a number. -/
def byte : Codec UInt8 where
  write n := .nat n.toNat
  read? j := (natural? j).bind fun n => if n < UInt8.size then some (UInt8.ofNat n) else none

/-- An amount as a hexadecimal string. It is also read from a number that fits a machine word. -/
def amount : Codec UInt256 where
  write a := .text (Numeral.hexadecimal a.toNat)
  read? j := match j.text? with
    | some s => UInt256.ofText? s
    | none => (word64.read? j).map UInt256.ofUInt64

/-- A list of values as an array. -/
def list (c : Codec α) : Codec (List α) where
  write as := .array (as.map c.write)
  read?
    | .array items => items.mapM c.read?
    | _ => none

/-- A byte string of known length as a hexadecimal string. It is also read from an array. -/
def fixedBytes (k : Nat) : Codec (FixedBytes k) where
  write v := .text (Hex.prefixed v.toList)
  read? j := match j.text? with
    | some s => Hex.readFixed? k s.toList
    | none => ((list byte).read? j).bind (Bytes.toFixed? k)
  shape := .bytes k

/-- A value or nothing, `null` standing for nothing. -/
def optional (c : Codec α) : Codec (Option α) where
  write
    | some a => c.write a
    | none => .null
  read?
    | .null => some none
    | j => (c.read? j).map some
  shape := c.shape

end Codec

end ShieldedWallet
