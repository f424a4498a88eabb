import ShieldedWallet.Note.Transition
import ShieldedWallet.Payment.Calldata

/-!
# Opening an account

The first note of an account is created with its first deposit. Nothing is spent; the hash of the
identifier is registered instead, so that an account is opened only once.
-/

namespace ShieldedWallet.Opening

open ShieldedWallet.Action

/-- The statement of an opening with the deposit `amount`. -/
def statement (version : ContractVersion) (a : Account) (amount : UInt256) :
    Action OpeningStatement := do
  let next ← Note.next? version .opening a amount
  match next.bind Account.note? with
  | none => throw (.balanceOverflow a.balance amount)
  | some note =>
    let idHash ← Note.hashOne a.id
    return ⟨note, idHash, .ofUInt256 amount⟩

/-- Prepares the opening of an account with notes of `version`, for the contract version
`expected`. -/
def prepare (version : ContractVersion) (a : Account) (amount : UInt256)
    (expected : ContractVersion) : Action (Calldata .opening) := do
  let secrets ← prover (.secrets a.id a.nonce)
  let (stated, proof) ← Calldata.certify .opening ⟨a.id, secrets, .ofUInt256 amount⟩
    (statement version a amount)
  return ⟨⟨stated, proof, amount, ()⟩, expected⟩

end ShieldedWallet.Opening
