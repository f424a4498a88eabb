import ShieldedWallet.Payment.Commitment

/-!
# What a commitment commits to

Payouts are packed into 99 bytes without loss, and the upper 252 bits of a digest are below the modulus,
so that they are the commitment as they are. Two payouts with one commitment are therefore a collision
of these bits.
-/

namespace ShieldedWallet.Payout

@[simp] theorem length_addressWord (a : Address) : (addressWord a).length = 32 :=
  Bytes.length_ofNatBE 32 _

theorem addressWord_injective {a a' : Address} (h : addressWord a = addressWord a') : a = a' := by
  have hword : Bytes.count 20 < Bytes.count 32 := by decide
  have hnumber := Bytes.ofNatBE_injective (Nat.lt_trans a.toNatBE_lt hword)
    (Nat.lt_trans a'.toNatBE_lt hword) h
  rw [← FixedBytes.ofNatBE_toNatBE a, ← FixedBytes.ofNatBE_toNatBE a', hnumber]

theorem length_packed (version : ContractVersion) (p : Payout) : (p.packed version).length = 99 := by
  simp [packed]

/-- Nothing is lost by packing. -/
theorem packed_injective {version version' : ContractVersion} {p p' : Payout}
    (h : p.packed version = p'.packed version') : version = version' ∧ p = p' := by
  unfold packed at h
  obtain ⟨h, hfee⟩ := List.append_inj h (by simp)
  obtain ⟨h, hrelayer⟩ := List.append_inj h (by simp)
  obtain ⟨hversion, hdestination⟩ := List.append_inj h (by simp)
  have hbytes : version.bytes = version'.bytes := Vector.toList_inj.1 hversion
  have hsize : UInt256.size = Bytes.count 32 := by decide
  have hfee' : p.fee = p'.fee :=
    UInt256.ext (Bytes.ofNatBE_injective (hsize ▸ p.fee.toNat_lt) (hsize ▸ p'.fee.toNat_lt) hfee)
  obtain ⟨destination, relayer, fee⟩ := p
  obtain ⟨destination', relayer', fee'⟩ := p'
  obtain rfl : destination = destination' := addressWord_injective hdestination
  obtain rfl : relayer = relayer' := addressWord_injective hrelayer
  obtain rfl : fee = fee' := hfee'
  obtain ⟨bytes⟩ := version
  obtain rfl : bytes = version'.bytes := hbytes
  exact ⟨rfl, rfl⟩

theorem upperBits_lt (digest : Hash256) : upperBits digest < Scalar.modulus := by
  have hlt := digest.toNatBE_lt
  have hcount : Bytes.count 32 = 16 * 2 ^ 252 := by decide
  have hbits : 2 ^ 252 < Scalar.modulus := by decide
  rw [upperBits, Nat.shiftRight_eq_div_pow]
  omega

/-- The commitment is the upper bits themselves: reducing them changes nothing. -/
theorem toNat_commitment (version : ContractVersion) (p : Payout) :
    (p.commitment version).toNat = upperBits (Keccak.digest (p.packed version)) :=
  Nat.mod_eq_of_lt (upperBits_lt _)

/-- The payouts are packed as different strings of 99 bytes, whose digests have the same upper
bits. -/
structure Collide (version : ContractVersion) (p p' : Payout) : Prop where
  packed_ne : p.packed version ≠ p'.packed version
  length_eq : (p.packed version).length = 99 ∧ (p'.packed version).length = 99
  upperBits_eq : upperBits (Keccak.digest (p.packed version)) =
    upperBits (Keccak.digest (p'.packed version))

/-- Payouts with one commitment are one payout, or collide. -/
theorem eq_or_collide {version : ContractVersion} {p p' : Payout}
    (h : p.commitment version = p'.commitment version) : p = p' ∨ Collide version p p' := by
  by_cases hp : p.packed version = p'.packed version
  · exact .inl (packed_injective hp).2
  · refine .inr ⟨hp, ⟨length_packed version p, length_packed version p'⟩, ?_⟩
    rw [← toNat_commitment, ← toNat_commitment, h]

end ShieldedWallet.Payout
