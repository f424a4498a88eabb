import ShieldedWallet.Account.State

/-!
# What is proved

Each movement of funds comes with a proof. The witness is what the prover has to know, the statement
is what the proof convinces others of. An opening creates the first note; a deposit and a withdrawal
spend the current note and create the next one, and a withdrawal is bound to its payout.
-/

namespace ShieldedWallet

/-- The secrets of a note. -/
structure Secrets where
  /-- What is published, hashed, when the note is spent. -/
  nullifier : Scalar
  /-- What hides the other parts of the note. -/
  trapdoor : Scalar
deriving DecidableEq

structure OpeningWitness where
  id : Scalar
  /-- The secrets of the first note. -/
  secrets : Secrets
  /-- The first deposit. -/
  deposit : Scalar
deriving DecidableEq

structure OpeningStatement where
  /-- The first note. -/
  note : Scalar
  /-- The hash of the identifier. -/
  idHash : Scalar
  /-- The first deposit. -/
  deposit : Scalar
deriving DecidableEq

/-- The witness of a deposit. -/
structure SpendWitness where
  id : Scalar
  /-- The secrets of the spent note. -/
  spent : Secrets
  /-- The balance the spent note commits to. -/
  balance : Scalar
  /-- The Merkle path of the spent note without its root. -/
  path : Bytes
  /-- The amount moved. -/
  value : Scalar
  /-- The secrets of the new note. -/
  created : Secrets
deriving DecidableEq

/-- The statement of a deposit. -/
structure SpendStatement where
  /-- The Merkle root above the spent note. -/
  root : Scalar
  /-- The hash of the nullifier of the spent note. -/
  nullifierHash : Scalar
  /-- The new note. -/
  note : Scalar
  /-- The amount moved. -/
  value : Scalar
deriving DecidableEq

structure WithdrawalWitness extends SpendWitness where
  /-- The commitment to the payout. -/
  commitment : Scalar
deriving DecidableEq

structure WithdrawalStatement extends SpendStatement where
  /-- The commitment to the payout. -/
  commitment : Scalar
deriving DecidableEq

@[reducible]
def Witness : Movement → Type
  | .opening => OpeningWitness
  | .deposit => SpendWitness
  | .withdrawal => WithdrawalWitness

@[reducible]
def Statement : Movement → Type
  | .opening => OpeningStatement
  | .deposit => SpendStatement
  | .withdrawal => WithdrawalStatement

instance (m : Movement) : DecidableEq (Witness m) :=
  match m with
  | .opening => inferInstanceAs (DecidableEq OpeningWitness)
  | .deposit => inferInstanceAs (DecidableEq SpendWitness)
  | .withdrawal => inferInstanceAs (DecidableEq WithdrawalWitness)

instance (m : Movement) : DecidableEq (Statement m) :=
  match m with
  | .opening => inferInstanceAs (DecidableEq OpeningStatement)
  | .deposit => inferInstanceAs (DecidableEq SpendStatement)
  | .withdrawal => inferInstanceAs (DecidableEq WithdrawalStatement)

/-- What a prover can be asked. -/
inductive ProverQuery where
  /-- The hash of at most `arity` elements. -/
  | hash (inputs : List Scalar)
  /-- How many elements can be hashed at once. -/
  | arity
  /-- The height of the note tree. -/
  | treeHeight
  /-- The secrets of the note created at `nonce`. -/
  | secrets (id : Scalar) (nonce : UInt64)
  /-- A signing key as a field element. -/
  | keyElement (key : Hash256)
  /-- The identifier of the account owned by a signing key on a chain. -/
  | accountId (key : Hash256) (chainId : UInt64)
  /-- A proof of a movement, with its statement. -/
  | prove (m : Movement) (w : Witness m)
  /-- Whether a proof proves a statement. -/
  | verify (m : Movement) (proof : Bytes) (s : Statement m)
deriving DecidableEq

/-- What a prover answers when it succeeds. -/
@[reducible]
def ProverQuery.Result : ProverQuery → Type
  | .hash _ => Scalar
  | .arity => Nat
  | .treeHeight => Nat
  | .secrets _ _ => Secrets
  | .keyElement _ => Scalar
  | .accountId _ _ => Scalar
  | .prove m _ => Bytes × Statement m
  | .verify _ _ _ => Bool

end ShieldedWallet
