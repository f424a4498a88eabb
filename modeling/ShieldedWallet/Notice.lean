import ShieldedWallet.Chain.Event
import ShieldedWallet.Failure

/-!
# Notices

The owner of a wallet is told what happens: each transaction found on the chain, each call prepared
and sent, and each failure together with what was being done. A failure that says the wallet is
outdated, and one that says the account is not on the chain, are told apart from the others.
-/

namespace ShieldedWallet

/-- How far an operation has come. -/
inductive Stage where
  | generation
  | sending
  | syncing
deriving DecidableEq

/-- What the wallet is doing. -/
inductive Operation where
  | move (m : Movement)
  | sync
deriving DecidableEq

/-- What is told about a prepared call. -/
structure CallSummary where
  movement : Movement
  amount : UInt256
  version : ContractVersion
deriving DecidableEq

/-- How a failure is told. -/
inductive Alarm where
  | general
  | outdated
  | notOnChain
deriving DecidableEq

/-- What the owner is told. -/
inductive Notice where
  /-- A transaction was found and applied. -/
  | transaction (t : Transaction)
  | prepared (summary : CallSummary) (operation : Operation)
  /-- A call was sent. -/
  | sent (txHash : Hash256) (operation : Operation)
  | failed (alarm : Alarm) (failure : Failure) (stage : Stage) (operation : Operation)
deriving DecidableEq

/-- How the failure is told. -/
def Failure.alarm (f : Failure) : Alarm :=
  if f.isOutdated then .outdated else if f.isNotOnChain then .notOnChain else .general

/-- What is told about a failure. -/
def Notice.ofFailure (f : Failure) (stage : Stage) (operation : Operation) : Notice :=
  .failed f.alarm f stage operation

end ShieldedWallet
