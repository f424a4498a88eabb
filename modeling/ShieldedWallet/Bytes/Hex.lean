import ShieldedWallet.Bytes.Endian
import ShieldedWallet.Text.Numeral

/-!
# Hexadecimal byte strings

A byte is two digits. Byte strings are printed in lower case; digits are read in either case, and a
byte string of known length may carry a `0x` or `0X` in front of its digits.
-/

namespace ShieldedWallet.Hex

/-- The two lower-case digits of a byte. -/
def byte (b : UInt8) : List Char :=
  [(b.toNat / 16).digitChar, (b.toNat % 16).digitChar]

/-- The digits of a byte string. -/
def digits (bs : Bytes) : List Char := bs.flatMap byte

/-- The byte string with the digits `cs`, if they come in pairs. -/
def read? : List Char → Option Bytes
  | [] => some []
  | [_] => none
  | h :: l :: cs => do
    let high ← Numeral.digit? 16 h
    let low ← Numeral.digit? 16 l
    let bs ← read? cs
    return UInt8.ofNat (high * 16 + low) :: bs

/-- The characters after an optional `0x` or `0X`. -/
def dropPrefix : List Char → List Char
  | '0' :: 'x' :: cs | '0' :: 'X' :: cs => cs
  | cs => cs

/-- A byte string of exactly `k` bytes, with or without the prefix. -/
def readFixed? (k : Nat) (cs : List Char) : Option (FixedBytes k) :=
  (read? (dropPrefix cs)).bind (Bytes.toFixed? k)

/-- A byte string with the prefix `0x`. -/
def prefixed (bs : Bytes) : String := String.ofList ('0' :: 'x' :: digits bs)

/-! ## Reading what was printed -/

@[simp] theorem digits_nil : digits [] = [] := rfl

@[simp] theorem digits_cons (b : UInt8) (bs : Bytes) :
    digits (b :: bs) = (b.toNat / 16).digitChar :: (b.toNat % 16).digitChar :: digits bs := rfl

theorem length_digits (bs : Bytes) : (digits bs).length = 2 * bs.length := by
  induction bs with
  | nil => rfl
  | cons b bs ih => simp [ih]; omega

theorem read?_digits (bs : Bytes) : read? (digits bs) = some bs := by
  induction bs with
  | nil => rfl
  | cons b bs ih =>
    have hb := b.toNat_lt
    have hh : Numeral.digit? 16 (b.toNat / 16).digitChar = some (b.toNat / 16) :=
      Numeral.digit?_digitChar (by omega) (by omega)
    have hl : Numeral.digit? 16 (b.toNat % 16).digitChar = some (b.toNat % 16) :=
      Numeral.digit?_digitChar (by omega) (by omega)
    rw [digits_cons, read?, hh, hl, ih]
    show some (UInt8.ofNat (b.toNat / 16 * 16 + b.toNat % 16) :: bs) = some (b :: bs)
    rw [Nat.div_add_mod', UInt8.ofNat_toNat]

/-- A printed byte string of known length is read back, prefix included. -/
theorem readFixed?_prefixed {k : Nat} (v : FixedBytes k) :
    readFixed? k (prefixed v.toList).toList = some v := by
  simp [readFixed?, prefixed, dropPrefix, read?_digits]

end ShieldedWallet.Hex
