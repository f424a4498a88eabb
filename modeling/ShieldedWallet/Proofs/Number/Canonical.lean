import Mathlib.Data.Nat.ModEq
import ShieldedWallet.Json.Codec
import ShieldedWallet.Proofs.Text.Numerals

/-!
# Where field elements come from

A field element is made from an amount, from bytes, from an address or a machine word, or from a text.
Each source gives a number, and what is too large for the field is either reduced or refused. So the
representative is below the modulus wherever the element comes from, and a number that is below the
modulus stays what it is.
-/

namespace ShieldedWallet.Scalar

/-! ## Sources -/

/-- What a field element is made from. -/
inductive Source where
  /-- An amount, which is reduced. -/
  | reduced (a : UInt256)
  /-- An amount, which has to be canonical. -/
  | canonical (a : UInt256)
  /-- An encoding in little-endian bytes. -/
  | encoding (bs : FixedBytes 32)
  | address (a : Address)
  | word (n : UInt64)
  | text (s : String)
  /-- A part of a document. -/
  | document (j : Json)
  /-- Nothing is given, so the element is the default one. -/
  | default

namespace Source

/-- The element that is made, if there is one. -/
def scalar? : Source → Option Scalar
  | .reduced a => some (ofUInt256 a)
  | .canonical a => ofCanonical? a
  | .encoding bs => ofBytes? bs
  | .address a => some (ofAddress a)
  | .word n => some (ofUInt64 n)
  | .text s => (ofText s).toOption
  | .document j => Codec.decimalScalar.read? j
  | .default => some Inhabited.default

/-- The number that is given, however large. -/
def Denotes : Source → Nat → Prop
  | .reduced a, n | .canonical a, n => n = a.toNat
  | .encoding bs, n => n = bs.toNatLE
  | .address a, n => n = a.toNatBE
  | .word w, n => n = w.toNat
  | .text s, n => Numeral.Denotes s.toList n
  | .document j, n => ∃ s, j.text? = some s ∧ Numeral.Denotes s.toList n
  | .default, n => n = 0

/-- What becomes of the number that is given. Where it is not reduced it has to be below the modulus. -/
def settle : Source → Nat → Nat
  | .reduced _, n | .address _, n | .word _, n => n % modulus
  | _, n => n

end Source

/-! ## Representatives -/

variable {a b : UInt256} {x : Scalar} {n : Nat}

theorem toNatLE_toBytes (x : Scalar) : x.toBytes.toNatLE = x.toNat := by
  have hfits : modulus < Bytes.count 32 := by decide
  rw [toBytes, FixedBytes.toNatLE_ofNatLE, Nat.mod_eq_of_lt (Nat.lt_trans x.toNat_lt hfits)]

theorem eq_toBytes_iff {bs : FixedBytes 32} : bs = x.toBytes ↔ bs.toNatLE = x.toNat := by
  constructor
  · rintro rfl
    exact toNatLE_toBytes x
  · intro h
    rw [toBytes, ← h, FixedBytes.ofNatLE_toNatLE]

theorem toNatBE_mod_modulus (a : Address) : a.toNatBE % modulus = a.toNatBE :=
  Nat.mod_eq_of_lt (ofAddress a).toNat_lt

theorem toNat_mod_modulus (n : UInt64) : n.toNat % modulus = n.toNat :=
  Nat.mod_eq_of_lt (ofUInt64 n).toNat_lt

theorem toOption_ofText_eq_some_iff {s : String} :
    (ofText s).toOption = some x ↔ Numeral.Denotes s.toList x.toNat := by
  have hoption : (ofText s).toOption = some x ↔ ofText s = .ok x := by
    cases ofText s <;> simp [Except.toOption]
  rw [hoption, ofText_eq_ok_iff, UInt256.ofText?_eq_some_iff, toNat_toUInt256]

/-- An element is made exactly if the number that is given settles to its representative. -/
theorem Source.scalar?_eq_some_iff {src : Source} :
    src.scalar? = some x ↔ ∃ k, src.Denotes k ∧ x.toNat = src.settle k := by
  cases src with
  | reduced a => simp [scalar?, Denotes, settle, Scalar.ext_iff, eq_comm]
  | canonical a =>
    rw [scalar?, ofCanonical?_eq_some_iff, UInt256.ext_iff, toNat_toUInt256]
    simp [Denotes, settle, eq_comm]
  | encoding bs =>
    rw [scalar?, ofBytes?_eq_some_iff, eq_toBytes_iff]
    simp [Denotes, settle, eq_comm]
  | address a => simp [scalar?, Denotes, settle, Scalar.ext_iff, toNatBE_mod_modulus, eq_comm]
  | word n => simp [scalar?, Denotes, settle, Scalar.ext_iff, toNat_mod_modulus, eq_comm]
  | text s =>
    rw [scalar?, toOption_ofText_eq_some_iff]
    simp [Denotes, settle]
  | document j =>
    rw [scalar?, Codec.decimalScalar, Codec.notated, Option.bind_eq_some_iff]
    simp [Denotes, settle, toOption_ofText_eq_some_iff]
  | default =>
    have hdefault : (Inhabited.default : Scalar).toNat = 0 := rfl
    simp [scalar?, Denotes, settle, Scalar.ext_iff, hdefault, eq_comm]

/-- The numbers that elements made from a source have. -/
theorem Source.exists_scalar_iff {src : Source} :
    (∃ x, src.scalar? = some x ∧ x.toUInt256.toNat = n ∧ x.toBytes.toNatLE = n) ↔
      n < modulus ∧ ∃ k, src.Denotes k ∧ n = src.settle k := by
  constructor
  · rintro ⟨x, hx, rfl, -⟩
    exact ⟨x.toNat_lt, scalar?_eq_some_iff.1 hx⟩
  · rintro ⟨hlt, hk⟩
    let x : Scalar := ⟨n, hlt⟩
    exact ⟨x, scalar?_eq_some_iff.2 hk, rfl, toNatLE_toBytes x⟩

/-! ## Embeddings -/

theorem ofUInt256_eq_ofUInt256_iff : ofUInt256 a = ofUInt256 b ↔ a.toNat ≡ b.toNat [MOD modulus] := by
  rw [Scalar.ext_iff, toNat_ofUInt256, toNat_ofUInt256]
  exact Iff.rfl

theorem toUInt256_ofUInt256_eq_iff : (ofUInt256 a).toUInt256 = a ↔ a.toNat < modulus := by
  rw [UInt256.ext_iff, toNat_toUInt256, toNat_ofUInt256]
  exact Nat.mod_eq_iff_lt (by decide)

theorem isSome_ofBytes?_iff {bs : FixedBytes 32} :
    (ofBytes? bs).isSome ↔ ∃ x : Scalar, bs = x.toBytes := by
  rw [Option.isSome_iff_exists]
  exact exists_congr fun _ => ofBytes?_eq_some_iff

theorem ofAddress_injective : Function.Injective ofAddress := by
  intro a a' h
  have hnumber : a.toNatBE = a'.toNatBE := congrArg toNat h
  rw [← FixedBytes.ofNatBE_toNatBE a, hnumber, FixedBytes.ofNatBE_toNatBE]

theorem ofUInt64_injective : Function.Injective ofUInt64 := by
  intro n n' h
  exact UInt64.toNat_inj.1 (congrArg toNat h)

/-- Whatever an element is made from, its representative is below the modulus, and it is the number that
was given, reduced or not, in both forms in which it can be taken out. An amount becomes its residue, so
that two amounts become one element exactly if they are congruent; bytes are accepted exactly if they are
the encoding of an element, which is then the one that is made; and what is below the modulus, as every
address and every machine word, stays what it is. -/
theorem scalars_canonical :
    (∀ (src : Source) (n : Nat),
        (∃ x, src.scalar? = some x ∧ x.toUInt256.toNat = n ∧ x.toBytes.toNatLE = n) ↔
          n < modulus ∧ ∃ k, src.Denotes k ∧ n = src.settle k) ∧
      (∀ a, (ofUInt256 a).toUInt256.toNat = a.toNat % modulus) ∧
      (∀ a b, ofUInt256 a = ofUInt256 b ↔ a.toNat ≡ b.toNat [MOD modulus]) ∧
      (∀ bs, ((ofBytes? bs).isSome ↔ ∃ x : Scalar, bs = x.toBytes) ∧
        ∀ x, ofBytes? bs = some x ↔ bs = x.toBytes) ∧
      (∀ a, (ofUInt256 a).toUInt256 = a ↔ a.toNat < modulus) ∧
      ((∀ a, (ofAddress a).toUInt256.toNat = a.toNatBE) ∧ Function.Injective ofAddress) ∧
      (∀ n, (ofUInt64 n).toUInt256.toNat = n.toNat) ∧ Function.Injective ofUInt64 := by
  refine ⟨fun _ _ => Source.exists_scalar_iff, toNat_ofUInt256, fun _ _ => ofUInt256_eq_ofUInt256_iff,
    fun _ => ⟨isSome_ofBytes?_iff, fun _ => ofBytes?_eq_some_iff⟩, fun _ => toUInt256_ofUInt256_eq_iff,
    ⟨toNat_ofAddress, ofAddress_injective⟩, toNat_ofUInt64, ofUInt64_injective⟩

end ShieldedWallet.Scalar
