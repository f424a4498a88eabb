import ShieldedWallet.Account.State
import ShieldedWallet.Account.Version

/-!
# Failures

Each party the wallet talks to has its own failures: the prover, which may sit behind a channel, the
contract, the relayer and the storage. The wallet adds its own. Two kinds of failure are told apart
by what the user can do about them: the wallet is outdated, or the account is not on the chain.
-/

namespace ShieldedWallet

/-- Why a request over a channel has no answer. -/
inductive ChannelFailure where
  /-- Nobody listens any more. -/
  | closed
  /-- The request was dropped unanswered. -/
  | dropped
deriving DecidableEq

inductive ProverFailure where
  /-- The prover cannot be reached. -/
  | channel (cause : ChannelFailure)
  /-- The prover refuses. -/
  | backend (reason : String)
deriving DecidableEq

inductive ContractFailure where
  /-- Another version is deployed. -/
  | versionRejected (reason : String)
  /-- The call is refused. -/
  | rejected (reason : String)
  /-- The contract cannot be reached. -/
  | rpc (reason : String)
deriving DecidableEq

inductive RelayerFailure where
  /-- Another version is served. -/
  | versionRejected (reason : String)
  /-- The relayer cannot be reached. -/
  | request (reason : String)
  /-- The relayer refuses, or its answer makes no sense. -/
  | response (reason : String)
deriving DecidableEq

inductive StorageFailure where
  /-- The storage cannot be reached. -/
  | backend (reason : String)
  /-- The account cannot be written down. -/
  | serialization (reason : String)
deriving DecidableEq

/-- The events of the chain do not fit the account. -/
inductive HistoryFailure where
  /-- A block has to hold exactly one matching event. -/
  | eventCount (block : UInt64) (count : Nat)
  /-- The event does not continue the account. -/
  | brokenTransition (block : UInt64)
deriving DecidableEq

/-- Failures of the wallet. -/
inductive Failure where
  /-- The contract runs another version. -/
  | contractVersion (reason : String)
  /-- The relayer serves another version. -/
  | relayerVersion (reason : String)
  /-- An event was emitted by another version. -/
  | eventVersion (expected found : ContractVersion)
  /-- The account or its current note is not on the chain. -/
  | notOnChain (reason : String)
  /-- The balance does not cover the amount. -/
  | insufficientFunds (balance amount : UInt256)
  /-- The balance would be too large. -/
  | balanceOverflow (balance amount : UInt256)
  /-- The amount does not cover the fee of the relayer. -/
  | amountBelowFee (amount fee : UInt256)
  /-- A proof could not be made. -/
  | proving (movement : Movement) (reason : String)
  /-- A proof is not valid. -/
  | proofRejected (movement : Movement)
  /-- The prover proved another statement. -/
  | statementMismatch (movement : Movement)
  /-- A transaction could not be submitted. -/
  | submission (movement : Movement) (reason : String)
  /-- A Merkle path has the wrong length. -/
  | pathLength (expected found : Nat)
  /-- The stored account is another one. -/
  | foreignRecord
  /-- A fee rate is above the whole amount. -/
  | invalidRate (rate : UInt256)
  /-- A fee is too large. -/
  | feeOverflow
  /-- The nonces of the account are used up. -/
  | nonceOverflow
  | prover (cause : ProverFailure)
  | contract (cause : ContractFailure)
  | relayer (cause : RelayerFailure)
  | storage (cause : StorageFailure)
  /-- The events of the chain do not fit the account. -/
  | history (cause : HistoryFailure)
deriving DecidableEq

/-! ## Messages -/

/-- What is said about a failure. -/
def ChannelFailure.message : ChannelFailure → String
  | .closed => "request channel is closed"
  | .dropped => "request was dropped without a response"

@[inherit_doc ChannelFailure.message]
def ProverFailure.message : ProverFailure → String
  | .channel cause => "crypto worker unavailable: " ++ cause.message
  | .backend reason => reason

@[inherit_doc ChannelFailure.message]
def ContractFailure.message : ContractFailure → String
  | .versionRejected reason => "version rejected by contract: " ++ reason
  | .rejected reason => "call rejected by contract: " ++ reason
  | .rpc reason => "rpc error: " ++ reason

@[inherit_doc ChannelFailure.message]
def RelayerFailure.message : RelayerFailure → String
  | .versionRejected reason => "version rejected by relayer: " ++ reason
  | .request reason => reason
  | .response reason => reason

@[inherit_doc ChannelFailure.message]
def StorageFailure.message : StorageFailure → String
  | .backend reason => "storage backend error: " ++ reason
  | .serialization reason => "failed to serialize account state: " ++ reason

@[inherit_doc ChannelFailure.message]
def HistoryFailure.message : HistoryFailure → String
  | .eventCount block count =>
    "expected exactly one matching event in block " ++ Numeral.decimal block.toNat ++ ", found "
      ++ Numeral.decimal count
  | .brokenTransition block =>
    "event in block " ++ Numeral.decimal block.toNat ++ " does not continue the account state"

namespace Failure

@[inherit_doc ChannelFailure.message]
def message : Failure → String
  | .contractVersion reason => "Version rejected by contract: " ++ reason
  | .relayerVersion reason => "Version rejected by relayer: " ++ reason
  | .eventVersion expected found =>
    "Unexpected version in event: expected " ++ expected.text ++ ", found " ++ found.text
  | .notOnChain reason => "Account not on chain: " ++ reason
  | .insufficientFunds balance amount =>
    "Insufficient funds: balance " ++ balance.text ++ " is below " ++ amount.text
  | .balanceOverflow balance amount =>
    "Balance overflow: cannot add " ++ amount.text ++ " to " ++ balance.text
  | .amountBelowFee _ fee => "Amount must be greater than the relayer fee: " ++ fee.text
  | .proving m reason => "Failed to prove " ++ m.proofName ++ ": " ++ reason
  | .proofRejected m => m.proofName ++ " proof verification failed"
  | .statementMismatch m => m.proofName ++ " public inputs do not match the proved statement"
  | .submission m reason => "Failed to " ++ m.verb ++ ": " ++ reason
  | .pathLength expected found =>
    "Wrong path length: expected " ++ Numeral.decimal expected ++ ", found "
      ++ Numeral.decimal found
  | .foreignRecord => "Stored account state belongs to a different account"
  | .invalidRate rate => "Invalid protocol fee: " ++ rate.text ++ " basis points"
  | .feeOverflow => "Protocol fee computation overflowed"
  | .nonceOverflow => "attempt to add with overflow"
  | .prover cause => cause.message
  | .contract cause => cause.message
  | .relayer cause => cause.message
  | .storage cause => cause.message
  | .history cause => cause.message

/-! ## Kinds of failures -/

/-- A failure of the contract, another version being the wallet's own failure. -/
def ofContract : ContractFailure → Failure
  | .versionRejected reason => .contractVersion reason
  | cause => .contract cause

/-- A failure of the relayer, another version being the wallet's own failure. -/
def ofRelayer : RelayerFailure → Failure
  | .versionRejected reason => .relayerVersion reason
  | cause => .relayer cause

/-- Whether the failure says that the wallet is outdated. -/
def isOutdated : Failure → Bool
  | .contractVersion _ | .relayerVersion _ | .eventVersion .. => true
  | _ => false

/-- Whether the failure says that the account is not on the chain. -/
def isNotOnChain : Failure → Bool
  | .notOnChain _ => true
  | _ => false

/-- Whether the chain contradicts the account. -/
def isFatal : Failure → Bool
  | .history _ => true
  | _ => false

/-- A failure while a movement was being proved. That the wallet is outdated stays visible. -/
def whileProving (m : Movement) (f : Failure) : Failure :=
  if f.isOutdated then f else .proving m f.message

/-- A failure while a movement was being submitted. That the wallet is outdated stays visible. -/
def whileSubmitting (m : Movement) (f : Failure) : Failure :=
  if f.isOutdated then f else .submission m f.message

end Failure

/-- How a relayer begins an answer that refuses the version. -/
def RelayerFailure.versionMismatchStart : String := "\"Version mismatch:"

/-- The failure a refusing answer of a relayer stands for. -/
def RelayerFailure.ofAnswer (answer : String) : RelayerFailure :=
  if versionMismatchStart.toList.isPrefixOf answer.toList then .versionRejected answer
  else .response answer

/-- The nonce at which the secrets of the current note are derived. -/
def Holding.noteNonce (h : Holding) : Except Failure UInt64 :=
  match h.noteNonce? with
  | some n => .ok n
  | none => .error (.notOnChain "active account with zero nonce")

end ShieldedWallet
