import ShieldedWallet.Chain.Contract
import ShieldedWallet.Hash.Keccak

/-!
# Commitments to payouts

The proof of a withdrawal is bound to where the money goes. The contract version, the destination,
the relayer and the fee are packed into 99 bytes; the upper 252 bits of their Keccak-256 digest are
always a field element.
-/

namespace ShieldedWallet.Payout

/-- An address as a 32-byte word. -/
def addressWord (a : Address) : Bytes := Bytes.ofNatBE 32 a.toNatBE

/-- The packed form of a payout under a contract version. -/
def packed (version : ContractVersion) (p : Payout) : Bytes :=
  version.bytes.toList ++ addressWord p.destination ++ addressWord p.relayer
    ++ Bytes.ofNatBE 32 p.fee.toNat

/-- The upper 252 bits of a digest. -/
def upperBits (digest : Hash256) : Nat := digest.toNatBE >>> 4

/-- The commitment to a payout under a contract version. -/
def commitment (version : ContractVersion) (p : Payout) : Scalar :=
  .ofNat (upperBits (Keccak.digest (p.packed version)))

end ShieldedWallet.Payout
