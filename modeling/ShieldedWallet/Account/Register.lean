import ShieldedWallet.Account.Record
import ShieldedWallet.Action

/-!
# The account register

The register of an account keeps its state under a key of the storage. It knows the account by its
identifier and recognises its records by the hash of the identifier, so that it neither adopts nor
overwrites the record of another account knowingly.
-/

namespace ShieldedWallet

open ShieldedWallet.Action

/-- The register of an account. -/
structure Register where
  /-- The key of the storage. -/
  key : String
  /-- The identifier of the account. -/
  id : Scalar
  /-- The hash of the identifier. -/
  idHash : Scalar
deriving DecidableEq

namespace Register

/-- The register of the account owned by a signing key on a chain. -/
def ofKey (signingKey : Hash256) (chainId : UInt64) (key : String) : Action Register := do
  let id ← prover (.accountId signingKey chainId)
  let idHash ← prover (.hash [id])
  return ⟨key, id, idHash⟩

/-- The account that a stored item stands for. -/
def read (r : Register) (item : Option Bytes) : Except Failure Account :=
  match item.bind AccountRecord.ofBytes? with
  | none => .ok (.unopened r.id)
  | some record =>
    if record.idHash = r.idHash then .ok (record.toAccount r.id) else .error .foreignRecord

/-- The state of the account. -/
def load (r : Register) : Action Account := do
  let item ← Action.load r.key
  liftM (r.read item)

/-- Replaces the state of the account. -/
def save (r : Register) (a : Account) : Action Unit := do
  if a.id ≠ r.id then throw .foreignRecord
  Action.store r.key (AccountRecord.ofAccount r.idHash a).toBytes

end Register

end ShieldedWallet
