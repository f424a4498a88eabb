import ShieldedWallet.Channel.Worker
import ShieldedWallet.Account.Version
import ShieldedWallet.Simulation.Digest

/-!
# A prover that proves by hashing

A proof is the digest of its statement. The prover makes one only after it has recomputed the
statement from the witness the way a circuit would constrain it, so that a wrong witness has no
proof. It can be told to refuse proving.
-/

namespace ShieldedWallet.Simulation

/-- How many elements are hashed at once. -/
def arity : Nat := 7

/-- The height of the note tree. -/
def treeHeight : Nat := 4

/-- The hash of elements, however many. -/
def hash (inputs : List Scalar) : Scalar := digest "hash" inputs []

/-- The hash of elements, if there are not too many. -/
def hash? (inputs : List Scalar) : Except ProverFailure Scalar :=
  if arity < inputs.length then
    .error (.backend ("cannot hash " ++ Numeral.decimal inputs.length ++ " inputs with arity "
      ++ Numeral.decimal arity))
  else .ok (hash inputs)

/-- The secrets of the note created at `nonce`. -/
def secrets (id : Scalar) (nonce : UInt64) : Secrets where
  nullifier := digest "nullifier" [id] (Bytes.ofNatLE 8 nonce.toNat)
  trapdoor := digest "trapdoor" [id] (Bytes.ofNatLE 8 nonce.toNat)

/-- A signing key as an element. -/
def keyElement (key : Hash256) : Scalar := .ofBytesBE key

/-- The identifier of the account owned by a signing key on a chain. -/
def accountId (key : Hash256) (chainId : UInt64) : Scalar :=
  digest "id" [keyElement key] (Bytes.ofNatLE 8 chainId.toNat)

/-- The note version committed in every note. -/
def noteVersion : Scalar := ContractVersion.supported.noteVersion

/-- The note with the given secrets and balance. -/
def note (id : Scalar) (s : Secrets) (balance : Scalar) : Scalar :=
  hash [noteVersion, id, s.nullifier, s.trapdoor, hash (balance :: List.replicate (arity - 1) 0)]

/-! ## Statements -/

def circuitLabel : Movement → String
  | .opening => "new account"
  | .deposit => "deposit"
  | .withdrawal => "withdraw"

/-- The elements of a statement in their order. -/
def elements : (m : Movement) → Statement m → List Scalar
  | .opening, s => [s.note, s.idHash, s.deposit]
  | .deposit, s => [s.root, s.nullifierHash, s.note, s.value]
  | .withdrawal, s => [s.root, s.nullifierHash, s.note, s.value, s.commitment]

def proof (m : Movement) (s : Statement m) : Bytes := proofOf (circuitLabel m) (elements m s)

/-! ## Proving -/

/-- The first `n` nodes of a path given by its bytes. -/
def readNodes? : (n : Nat) → Bytes → Option (List Scalar)
  | 0, _ => some []
  | n + 1, bs => do
    let node ← (Bytes.toFixed? 32 (bs.take 32)).bind Scalar.ofBytes?
    let nodes ← readNodes? n (bs.drop 32)
    return node :: nodes

/-- The nodes of a path given by its bytes: at least one, each of 32 bytes. -/
def pathNodes? (bs : Bytes) : Option (List Scalar) :=
  if bs = [] ∨ bs.length % 32 ≠ 0 then none else readNodes? (bs.length / 32) bs

/-- The statement of a spending that leaves the balance `left`. -/
def spend (w : SpendWitness) (left : Option UInt256) : Except ProverFailure SpendStatement :=
  match left with
  | none => .error (.backend "new balance is out of range")
  | some left =>
    match pathNodes? w.path with
    | none => .error (.backend "malformed merkle path")
    | some nodes =>
      if nodes.head? = some (note w.id w.spent w.balance) then
        .ok {
          root := merkleRoot nodes
          nullifierHash := hash [w.spent.nullifier]
          note := note w.id w.created (.ofUInt256 left)
          value := w.value }
      else .error (.backend "merkle path does not open the spent note")

/-- The statement that a witness is a witness of. -/
def statement? : (m : Movement) → Witness m → Except ProverFailure (Statement m)
  | .opening, w => .ok ⟨note w.id w.secrets w.deposit, hash [w.id], w.deposit⟩
  | .deposit, w => spend w (w.balance.toUInt256.add? w.value.toUInt256)
  | .withdrawal, w =>
    (spend w.toSpendWitness (w.balance.toUInt256.sub? w.value.toUInt256)).map
      fun s => ⟨s, w.commitment⟩

/-- The answer of the prover, which may refuse proving. -/
def proverAnswer (refusing : Bool) (q : ProverQuery) : proving.Answer q :=
  match q with
  | .hash inputs => hash? inputs
  | .arity => .ok arity
  | .treeHeight => .ok treeHeight
  | .secrets id nonce => .ok (secrets id nonce)
  | .keyElement key => .ok (keyElement key)
  | .accountId key chainId => .ok (accountId key chainId)
  | .prove m w =>
    if refusing then .error (.backend "prover is disabled")
    else (statement? m w).map fun s => (proof m s, s)
  | .verify m p s => .ok (p == proof m s)

structure ProverState where
  /-- How many questions have been answered. -/
  calls : Nat := 0
  /-- Whether proving is refused. -/
  refusing : Bool := false
deriving DecidableEq

/-- The prover as a party that counts its answers. -/
def prover : Environment proving ProverState
  | q, s => (proverAnswer s.refusing q, { s with calls := s.calls + 1 })

end ShieldedWallet.Simulation
