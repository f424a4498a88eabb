import ShieldedWallet.Bytes.Endian
import ShieldedWallet.Number.UInt256
import ShieldedWallet.Text.Numeral

/-!
# Field elements

Notes, nullifiers, identifiers and Merkle nodes are elements of the scalar field of the BN254 curve.
The wallet computes nothing in the field: it moves elements across the boundary to the prover and
compares them, so an element is its canonical representative below the modulus.
-/

namespace ShieldedWallet

/-- The number of field elements. -/
abbrev Scalar.modulus : Nat :=
  21888242871839275222246405745257275088548364400416034343698204186575808495617

/-- A field element, given by its representative below the modulus. -/
@[ext]
structure Scalar where
  /-- The representative. -/
  toNat : Nat
  /-- The representative is canonical. -/
  toNat_lt : toNat < Scalar.modulus
deriving DecidableEq

/-- An account, contract or relayer address on the chain. -/
abbrev Address := FixedBytes 20

/-- A block, transaction or message digest. -/
abbrev Hash256 := FixedBytes 32

namespace Scalar

/-- The residue of `n`. -/
def ofNat (n : Nat) : Scalar := ⟨n % modulus, Nat.mod_lt _ (by decide)⟩

instance {n : Nat} : OfNat Scalar n := ⟨ofNat n⟩

instance : Inhabited Scalar := ⟨0⟩

/-- The residue of an amount. -/
def ofUInt256 (a : UInt256) : Scalar := ofNat a.toNat

/-- The element represented by `a`, if `a` is canonical. -/
def ofCanonical? (a : UInt256) : Option Scalar :=
  if h : a.toNat < modulus then some ⟨a.toNat, h⟩ else none

/-- Every machine word is canonical. -/
def ofUInt64 (n : UInt64) : Scalar :=
  ⟨n.toNat, Nat.lt_of_lt_of_le n.toNat_lt (by decide)⟩

/-- The element whose little-endian encoding is `bs`, if `bs` is canonical. -/
def ofBytes? (bs : FixedBytes 32) : Option Scalar :=
  if h : bs.toNatLE < modulus then some ⟨bs.toNatLE, h⟩ else none

/-- The residue of a 32-byte string read as a little-endian number. -/
def ofBytesLE (bs : FixedBytes 32) : Scalar := ofNat bs.toNatLE

/-- The residue of a 32-byte string read as a big-endian number. -/
def ofBytesBE (bs : FixedBytes 32) : Scalar := ofNat bs.toNatBE

/-- Every address is canonical, read as a big-endian number. -/
def ofAddress (a : Address) : Scalar :=
  ⟨a.toNatBE, Nat.lt_of_lt_of_le a.toNatBE_lt (by decide)⟩

/-- The representative as an amount. -/
def toUInt256 (s : Scalar) : UInt256 := ⟨s.toNat, Nat.lt_of_lt_of_le s.toNat_lt (by decide)⟩

/-- The little-endian encoding. -/
def toBytes (s : Scalar) : FixedBytes 32 := FixedBytes.ofNatLE 32 s.toNat

/-- The successor modulo the field order. -/
def succ (s : Scalar) : Scalar := ofNat (s.toNat + 1)

/-! ## Text -/

/-- Why a text is not a field element. -/
inductive TextError where
  /-- The text is not a numeral of an amount. -/
  | invalidInteger
  /-- The number is not below the modulus. -/
  | nonCanonical
deriving DecidableEq

/-- What is said about a text that is not a field element. -/
def TextError.message : TextError → String
  | .invalidInteger => "invalid integer"
  | .nonCanonical => "value is not a canonical field element"

end Scalar

/-- The amount a text denotes, if it is a numeral of a number that fits. -/
def UInt256.ofText? (s : String) : Option UInt256 := (Numeral.amount? s.toList).bind ofNat?

/-- The field element a text denotes. -/
def Scalar.ofText (s : String) : Except Scalar.TextError Scalar :=
  match UInt256.ofText? s with
  | none => .error .invalidInteger
  | some a =>
    match Scalar.ofCanonical? a with
    | none => .error .nonCanonical
    | some x => .ok x

/-- The decimal numeral of an amount. -/
def UInt256.text (a : UInt256) : String := Numeral.decimal a.toNat

namespace Scalar

/-- The decimal numeral of the representative. -/
def text (s : Scalar) : String := Numeral.decimal s.toNat

/-- The representative marked as a field element. -/
def debugText (s : Scalar) : String := "Scalar(" ++ s.text ++ ")"

/-! ## Embeddings -/

@[simp] theorem toNat_zero : (0 : Scalar).toNat = 0 := rfl

@[simp] theorem toNat_toUInt256 (s : Scalar) : s.toUInt256.toNat = s.toNat := rfl

@[simp] theorem toNat_ofUInt256 (a : UInt256) : (ofUInt256 a).toNat = a.toNat % modulus := rfl

@[simp] theorem toNat_ofUInt64 (n : UInt64) : (ofUInt64 n).toNat = n.toNat := rfl

@[simp] theorem toNat_ofAddress (a : Address) : (ofAddress a).toNat = a.toNatBE := rfl

@[simp] theorem ofUInt256_toUInt256 (s : Scalar) : ofUInt256 s.toUInt256 = s := by
  ext
  exact Nat.mod_eq_of_lt s.toNat_lt

theorem ofCanonical?_eq_some_iff {a : UInt256} {s : Scalar} :
    ofCanonical? a = some s ↔ a = s.toUInt256 := by
  unfold ofCanonical?
  split
  case isTrue h => simp [Scalar.ext_iff, UInt256.ext_iff]
  case isFalse h =>
    simp only [reduceCtorEq, false_iff]
    rintro rfl
    exact h s.toNat_lt

/-- A byte string is canonical exactly if it encodes an element, which is then the one read. -/
theorem ofBytes?_eq_some_iff {bs : FixedBytes 32} {s : Scalar} :
    ofBytes? bs = some s ↔ bs = s.toBytes := by
  unfold ofBytes? toBytes
  split
  case isTrue h =>
    simp only [Option.some.injEq]
    constructor
    · rintro rfl
      exact (FixedBytes.ofNatLE_toNatLE bs).symm
    · rintro rfl
      ext
      show (FixedBytes.ofNatLE 32 s.toNat).toNatLE = s.toNat
      rw [FixedBytes.toNatLE_ofNatLE]
      exact Nat.mod_eq_of_lt (Nat.lt_of_lt_of_le s.toNat_lt (by decide))
  case isFalse h =>
    simp only [reduceCtorEq, false_iff]
    rintro rfl
    rw [FixedBytes.toNatLE_ofNatLE,
      Nat.mod_eq_of_lt (Nat.lt_of_lt_of_le s.toNat_lt (by decide))] at h
    exact h s.toNat_lt

theorem toBytes_injective {s t : Scalar} (h : s.toBytes = t.toBytes) : s = t := by
  have hs : ofBytes? s.toBytes = some s := ofBytes?_eq_some_iff.2 rfl
  rw [h, ofBytes?_eq_some_iff.2 rfl] at hs
  exact (Option.some.inj hs).symm

end Scalar

end ShieldedWallet
