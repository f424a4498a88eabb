import ShieldedWallet.Hash.Blake2s
import ShieldedWallet.Hash.Keccak
import ShieldedWallet.Number.Scalar

/-!
# Labelled digests

In the simulation every hash is a BLAKE2s digest reduced into the field. What is hashed carries a
label and the lengths of its parts, so that different labels, inputs or trailing bytes are never
hashed as the same bytes.
-/

namespace ShieldedWallet.Simulation

/-- The bytes hashed for a label, a list of elements and trailing bytes. -/
def digestBytes (label : String) (inputs : List Scalar) (extra : Bytes) : Bytes :=
  let name := label.toUTF8.data.toList
  Bytes.ofNatLE 8 name.length ++ name ++ Bytes.ofNatLE 8 inputs.length
    ++ inputs.flatMap (fun x => x.toBytes.toList) ++ extra

/-- The digest of elements and bytes under a label. -/
def digest (label : String) (inputs : List Scalar) (extra : Bytes) : Scalar :=
  .ofBytesLE (Blake2s.digest (digestBytes label inputs extra))

/-- The Merkle root above the nodes of a path. -/
def merkleRoot (nodes : List Scalar) : Scalar := digest "merkle root" nodes []

/-- The proof of a statement with the given elements, under the label of its circuit. -/
def proofOf (label : String) (elements : List Scalar) : Bytes :=
  (digest label elements "proof".toUTF8.data.toList).toBytes.toList

/-- The hash of the transaction that appended the leaf `index` in the block `block`. -/
def txHash (block index : UInt64) : Hash256 :=
  Keccak.digest (Bytes.ofNatBE 8 block.toNat ++ Bytes.ofNatBE 8 index.toNat)

end ShieldedWallet.Simulation
