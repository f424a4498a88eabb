import ShieldedWallet.Note.Path
import ShieldedWallet.Note.Transition
import ShieldedWallet.Payment.Calldata
import ShieldedWallet.Payment.Commitment

/-!
# Spending a note

Deposits and withdrawals spend the current note and create the next one. They differ in what they
check before and in the payout that a withdrawal is bound to.
-/

namespace ShieldedWallet

open ShieldedWallet.Action

/-- What is needed to spend the current note of an account. -/
structure Spending where
  /-- What the prover has to know. -/
  witness : SpendWitness
  /-- The Merkle root above the spent note. -/
  root : Scalar
  /-- The new note. -/
  note : Scalar

namespace Spending

/-- Gathers what is needed for a movement of `amount`. It fails with `impossible` if the account has
no next state. -/
def gather (version : ContractVersion) (m : Movement) (a : Account) (amount : UInt256)
    (impossible : Failure) : Action Spending := do
  match ← Note.next? version m a amount with
  | none => throw impossible
  | some next =>
    let (h, raw) ← Note.onChainPath a
    let (path, root) ← Note.splitPath raw
    let nonce ← liftM h.noteNonce
    let spent ← prover (.secrets h.id nonce)
    let created ← prover (.secrets h.id h.nonce)
    return {
      witness := ⟨h.id, spent, .ofUInt256 h.balance, path, .ofUInt256 amount, created⟩
      root := root
      note := next.note?.getD 0 }

/-- What has to be proved. -/
def statement (s : Spending) : Action SpendStatement := do
  let nullifierHash ← Note.hashOne s.witness.spent.nullifier
  return ⟨s.root, nullifierHash, s.note, s.witness.value⟩

end Spending

namespace Deposit

/-- Prepares a deposit with notes of `version`, for the contract version `expected`. -/
def prepare (version : ContractVersion) (a : Account) (amount : UInt256)
    (expected : ContractVersion) : Action (Calldata .deposit) := do
  let s ← Spending.gather version .deposit a amount (.balanceOverflow a.balance amount)
  let (stated, proof) ← Calldata.certify .deposit s.witness s.statement
  return ⟨⟨stated, proof, amount, ()⟩, expected⟩

end Deposit

namespace Withdrawal

/-- Whether the balance covers the amount and the amount covers the fee, from local data only. -/
def check (a : Account) (amount fee : UInt256) : Except Failure Unit :=
  if a.balance < amount then .error (.insufficientFunds a.balance amount)
  else if amount < fee then .error (.amountBelowFee amount fee)
  else .ok ()

/-- Prepares a withdrawal with notes of `version`, for the contract version `expected`. -/
def prepare (version : ContractVersion) (a : Account) (amount : UInt256) (payout : Payout)
    (expected : ContractVersion) : Action (Calldata .withdrawal) := do
  liftM (check a amount payout.fee)
  let s ← Spending.gather version .withdrawal a amount (.insufficientFunds a.balance amount)
  let commitment := payout.commitment expected
  let statement : Action WithdrawalStatement := do
    let st ← s.statement
    return ⟨st, commitment⟩
  let (stated, proof) ← Calldata.certify .withdrawal ⟨s.witness, commitment⟩ statement
  return ⟨⟨stated, proof, amount, payout⟩, expected⟩

end Withdrawal

end ShieldedWallet
