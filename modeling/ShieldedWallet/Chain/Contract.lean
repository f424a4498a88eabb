import ShieldedWallet.Chain.Event
import ShieldedWallet.Prover.Statement

/-!
# The contract

The contract keeps the note tree and the index of spent nullifiers. It is asked for paths and
events, and it encodes calls, which are then submitted as transactions.
-/

namespace ShieldedWallet

/-- Where a withdrawal goes. -/
structure Payout where
  /-- Who receives the amount less the fee. -/
  destination : Address
  /-- Who receives the fee. -/
  relayer : Address
  fee : UInt256
deriving DecidableEq

/-- What a call says beyond its statement: only withdrawals pay out. -/
@[reducible]
def Terms : Movement → Type
  | .opening => Unit
  | .deposit => Unit
  | .withdrawal => Payout

instance (m : Movement) : DecidableEq (Terms m) :=
  match m with
  | .opening => inferInstanceAs (DecidableEq Unit)
  | .deposit => inferInstanceAs (DecidableEq Unit)
  | .withdrawal => inferInstanceAs (DecidableEq Payout)

structure Call (m : Movement) where
  /-- What is proved. -/
  statement : Statement m
  proof : Bytes
  /-- The amount moved. -/
  amount : UInt256
  /-- What else the call says. -/
  terms : Terms m
deriving DecidableEq

/-- A movement that costs a protocol fee. -/
inductive FeeKind where
  | deposit
  | withdrawal
deriving DecidableEq

/-- What the contract can be asked. -/
inductive ContractQuery where
  /-- The Merkle path of a leaf, from the leaf up to the root. -/
  | path (index : UInt64)
  /-- The block in which a nullifier hash was registered. -/
  | nullifierBlock (hash : Scalar)
  /-- The note events of a block. -/
  | events (block : UInt64)
  /-- The encoding of a call from `sender`, made for a contract version. -/
  | encode (m : Movement) (version : ContractVersion) (sender : Address) (call : Call m)
  /-- The rate of a protocol fee in basis points. -/
  | rate (kind : FeeKind)

/-- What the contract answers when it succeeds. -/
@[reducible]
def ContractQuery.Result : ContractQuery → Type
  | .path _ => List Scalar
  | .nullifierBlock _ => Option UInt64
  | .events _ => List NoteEvent
  | .encode _ _ _ _ => Bytes
  | .rate _ => UInt256

/-- A transaction to be signed and sent. -/
structure TransactionRequest where
  /-- Who signs and pays. -/
  sender : Address
  /-- The contract called. -/
  target : Address
  /-- The encoded call. -/
  data : Bytes
  /-- The amount attached. -/
  value : UInt256
deriving DecidableEq

/-- The amount attached to a call: withdrawals take nothing along. -/
def Movement.attached (m : Movement) (amount : UInt256) : UInt256 :=
  match m with
  | .opening | .deposit => amount
  | .withdrawal => 0

end ShieldedWallet
