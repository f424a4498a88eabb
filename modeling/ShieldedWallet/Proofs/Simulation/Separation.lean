import ShieldedWallet.Proofs.Simulation.Digests
import ShieldedWallet.Simulation.Ledger

/-!
# What digests are made for

Seven kinds of things are made by digests. Each kind has a label of its own, and a proof has that of its
movement. As nothing is lost in the bytes that are hashed, neither the kind nor what a thing is made from
can be taken for another: two of them are equal because they are made from the same, or because the
digests of two different byte strings are equal.
-/

namespace ShieldedWallet.Simulation

/-! ## Messages -/

/-- What is digested: a label, elements and trailing bytes, the lengths of which can be written down. -/
@[ext]
structure Message where
  label : String
  elements : List Scalar
  /-- The trailing bytes. -/
  extra : Bytes
  measured : Measured label elements

namespace Message

/-- The bytes that are hashed. -/
def bytes (m : Message) : Bytes := digestBytes m.label m.elements m.extra

def digest (m : Message) : Scalar := Simulation.digest m.label m.elements m.extra

theorem bytes_injective : Function.Injective bytes := by
  intro m m' h
  obtain ⟨hlabel, helements, hextra⟩ := digestBytes_injective m.measured m'.measured h
  exact Message.ext hlabel helements hextra

theorem digest_eq_iff {m m' : Message} : m.digest = m'.digest ↔ m = m' ∨ Collide m.bytes m'.bytes := by
  constructor
  · intro h
    rcases eq_or_collide m.measured m'.measured h with ⟨hlabel, helements, hextra⟩ | hcollide
    · exact .inl (Message.ext hlabel helements hextra)
    · exact .inr hcollide
  · rintro (rfl | hcollide)
    · rfl
    · exact hcollide.2

end Message

/-! ## Purposes -/

/-- What a digest is made for. -/
inductive Purpose where
  | hash
  | nullifier
  | trapdoor
  | identifier
  | sibling
  | root
  | proof (m : Movement)
deriving DecidableEq

namespace Purpose

def label : Purpose → String
  | .hash => "hash"
  | .nullifier => "nullifier"
  | .trapdoor => "trapdoor"
  | .identifier => "id"
  | .sibling => "sibling"
  | .root => "merkle root"
  | .proof m => circuitLabel m

/-- The purpose that a label stands for. -/
def ofLabel? (s : String) : Option Purpose :=
  [hash, nullifier, trapdoor, identifier, sibling, root, proof .opening, proof .deposit,
    proof .withdrawal].find? (·.label = s)

theorem ofLabel?_label (p : Purpose) : ofLabel? p.label = some p := by
  cases p with
  | proof m => cases m <;> decide
  | _ => decide

theorem label_injective : Function.Injective label := by
  intro p q h
  have hread := ofLabel?_label p
  rw [h, ofLabel?_label] at hread
  exact (Option.some.inj hread).symm

theorem length_label (p : Purpose) : p.label.toUTF8.data.toList.length < 16 := by
  cases p with
  | proof m => cases m <;> decide
  | _ => decide

end Purpose

/-! ## What is made -/

/-- What can be made by a digest, with what it is made from. -/
inductive Digested where
  | hash (inputs : List Scalar) (short : inputs.length < 2 ^ 64)
  | nullifier (id : Scalar) (nonce : UInt64)
  | trapdoor (id : Scalar) (nonce : UInt64)
  | identifier (key : Hash256) (chainId : UInt64)
  | sibling (index position : UInt64)
  | root (nodes : List Scalar) (short : nodes.length < 2 ^ 64)
  | proof (m : Movement) (s : Statement m)

namespace Digested

/-- The bytes of what is made. -/
def made : Digested → Bytes
  | .hash inputs _ => (Simulation.hash inputs).toBytes.toList
  | .nullifier id nonce => (secrets id nonce).nullifier.toBytes.toList
  | .trapdoor id nonce => (secrets id nonce).trapdoor.toBytes.toList
  | .identifier key chainId => (accountId key chainId).toBytes.toList
  | .sibling index position => (Ledger.sibling index position.toNat).toBytes.toList
  | .root nodes _ => (merkleRoot nodes).toBytes.toList
  | .proof m s => Simulation.proof m s

def purpose : Digested → Purpose
  | .hash _ _ => .hash
  | .nullifier _ _ => .nullifier
  | .trapdoor _ _ => .trapdoor
  | .identifier _ _ => .identifier
  | .sibling _ _ => .sibling
  | .root _ _ => .root
  | .proof m _ => .proof m

def elements : Digested → List Scalar
  | .hash inputs _ => inputs
  | .nullifier id _ | .trapdoor id _ => [id]
  | .identifier key _ => [keyElement key]
  | .sibling _ _ => []
  | .root nodes _ => nodes
  | .proof m s => Simulation.elements m s

def extra : Digested → Bytes
  | .hash _ _ | .root _ _ => []
  | .nullifier _ nonce | .trapdoor _ nonce => Bytes.ofNatLE 8 nonce.toNat
  | .identifier _ chainId => Bytes.ofNatLE 8 chainId.toNat
  | .sibling index position => Bytes.ofNatLE 8 index.toNat ++ Bytes.ofNatLE 8 position.toNat
  | .proof _ _ => "proof".toUTF8.data.toList

variable {d e : Digested}

theorem length_elements (d : Digested) : d.elements.length < Bytes.count 8 := by
  cases d with
  | hash inputs short => exact short
  | root nodes short => exact short
  | proof m s => exact (measured_elements m s).elements_lt
  | _ => simp [elements, Bytes.count]

/-- What is digested. -/
def message (d : Digested) : Message where
  label := d.purpose.label
  elements := d.elements
  extra := d.extra
  measured := ⟨Nat.lt_trans d.purpose.length_label (by decide), d.length_elements⟩

theorem made_eq (d : Digested) : d.made = d.message.digest.toBytes.toList := by
  cases d <;> rfl

theorem made_eq_made_iff : d.made = e.made ↔ d.message.digest = e.message.digest := by
  rw [made_eq, made_eq]
  constructor
  · intro h
    exact Scalar.toBytes_injective (Vector.toList_inj.1 h)
  · intro h
    rw [h]

/-! ## Made from the same -/

/-- Both are made for one purpose from the same. Of the key that owns an account only the residue
counts. -/
inductive Same : Digested → Digested → Prop where
  | refl (d : Digested) : Same d d
  | identifier {key key' : Hash256} {chainId : UInt64} (h : keyElement key = keyElement key') :
      Same (.identifier key chainId) (.identifier key' chainId)

theorem word_injective {n n' : UInt64} (h : Bytes.ofNatLE 8 n.toNat = Bytes.ofNatLE 8 n'.toNat) :
    n = n' := by
  have hn : ∀ k : UInt64, k.toNat < Bytes.count 8 := UInt64.toNat_lt
  exact UInt64.toNat_inj.1 (Bytes.ofNatLE_injective (hn n) (hn n') h)

/-- What a thing is made from can be read off its message. -/
theorem message_eq_iff : d.message = e.message ↔ d.Same e := by
  constructor
  · intro h
    have hpurpose : d.purpose = e.purpose := Purpose.label_injective (congrArg Message.label h)
    have helements : d.elements = e.elements := congrArg Message.elements h
    have hextra : d.extra = e.extra := congrArg Message.extra h
    -- The label has told the purpose, so in each case one form of `e` is left.
    cases d with
    | hash inputs =>
      cases e with
      | hash inputs' =>
        obtain rfl : inputs = inputs' := helements
        exact .refl _
      | _ => cases hpurpose
    | nullifier id nonce =>
      cases e with
      | nullifier id' nonce' =>
        obtain rfl : id = id' := (List.cons.inj helements).1
        obtain rfl := word_injective hextra
        exact .refl _
      | _ => cases hpurpose
    | trapdoor id nonce =>
      cases e with
      | trapdoor id' nonce' =>
        obtain rfl : id = id' := (List.cons.inj helements).1
        obtain rfl := word_injective hextra
        exact .refl _
      | _ => cases hpurpose
    | identifier key chainId =>
      cases e with
      | identifier key' chainId' =>
        obtain rfl := word_injective hextra
        exact .identifier (List.cons.inj helements).1
      | _ => cases hpurpose
    | sibling index position =>
      cases e with
      | sibling index' position' =>
        obtain ⟨hindex, hposition⟩ := List.append_inj hextra (by simp)
        obtain rfl := word_injective hindex
        obtain rfl := word_injective hposition
        exact .refl _
      | _ => cases hpurpose
    | root nodes =>
      cases e with
      | root nodes' =>
        obtain rfl : nodes = nodes' := helements
        exact .refl _
      | _ => cases hpurpose
    | proof m s =>
      cases e with
      | proof m' s' =>
        obtain rfl : m = m' := Purpose.proof.inj hpurpose
        obtain rfl : s = s' := elements_injective helements
        exact .refl _
      | _ => cases hpurpose
  · intro h
    cases h with
    | refl => rfl
    | identifier h => exact Message.ext rfl (congrArg (· :: []) h) rfl

end Digested

/-- The label, the elements and the trailing bytes can be read off the bytes that are hashed, so two
digests are equal only if these are the same or if two different byte strings have one digest. The same
holds of all that is made by digests: hashes, nullifiers, trapdoors, identifiers, siblings, roots and the
proofs of each movement. What is digested for them tells the purpose and what they are made from, where
an account is made from the residue of its owner's key. -/
theorem digests_separated :
    Function.Injective Message.bytes ∧
      (∀ m m' : Message, m.digest = m'.digest ↔ m = m' ∨ Collide m.bytes m'.bytes) ∧
      ∀ d e : Digested,
        (d.made = e.made ↔ d.message = e.message ∨ Collide d.message.bytes e.message.bytes) ∧
          (d.message = e.message ↔ d.Same e) := by
  refine ⟨Message.bytes_injective, fun _ _ => Message.digest_eq_iff, fun d e => ⟨?_, ?_⟩⟩
  · rw [Digested.made_eq_made_iff, Message.digest_eq_iff]
  · exact Digested.message_eq_iff

end ShieldedWallet.Simulation
