import ShieldedWallet.Action

/-!
# Notes and transitions

A note is the hash of the note version, the identifier, the two secrets and the hash of the balance.
There is one definition of what an account becomes by a movement of funds. The wallet uses it to
prepare its own movements, and to recognise them among the events of the chain.
-/

namespace ShieldedWallet.Note

open ShieldedWallet.Action

/-- What is hashed to commit to a balance: the balance, filled up with zeros to the arity. -/
def balanceInputs (arity : Nat) (balance : UInt256) : List Scalar :=
  .ofUInt256 balance :: List.replicate (arity - 1) 0

/-- What is hashed to make a note. -/
def inputs (version : ContractVersion) (id : Scalar) (secrets : Secrets) (balanceHash : Scalar) :
    List Scalar :=
  [version.noteVersion, id, secrets.nullifier, secrets.trapdoor, balanceHash]

def balanceHash (balance : UInt256) : Action Scalar := do
  let arity ← prover .arity
  prover (.hash (balanceInputs arity balance))

/-- The note of the account `id` with the given secrets and balance. -/
def commit (version : ContractVersion) (id : Scalar) (secrets : Secrets) (balance : UInt256) :
    Action Scalar := do
  let h ← balanceHash balance
  prover (.hash (inputs version id secrets h))

/-- The hash of a single element. -/
def hashOne (x : Scalar) : Action Scalar := prover (.hash [x])

/-- The largest nonce. -/
def maxNonce : UInt64 := 0xffffffffffffffff

/-- The account after a movement of `amount`. There is none if the balance would be out of range, and
then the prover is not asked. The position of the new note is unknown until the note is seen on the
chain. An account with the largest nonce cannot go on, which is found last. -/
def next? (version : ContractVersion) (m : Movement) (a : Account) (amount : UInt256) :
    Action (Option Account) :=
  match m.balanceAfter? a.balance amount with
  | none => return none
  | some balance => do
    let secrets ← prover (.secrets a.id a.nonce)
    let note ← commit version a.id secrets balance
    if a.nonce = maxNonce then throw .nonceOverflow
    else return some (.opened ⟨a.id, a.nonce + 1, balance, note, none⟩)

end ShieldedWallet.Note
