import ShieldedWallet.Account.Register
import ShieldedWallet.History.Continuation

/-!
# Walking the history of an account

The nullifier of the current note leads to the block that spent it, and that block holds the event
of the next note. The walk ends at a note that is not spent. Before its opening an account has no
note, and the hash of its identifier leads to the block of the opening.

A pass walks from the stored state and stores every state it comes to; the replay walks from the
beginning and stores nothing. Every step uses up a nonce, so there are at most `2 ^ 64` of them.
-/

namespace ShieldedWallet

open ShieldedWallet.Action

/-- What leads to the next transition of an account. -/
inductive SearchKey where
  /-- The identifier of an account that has no note. -/
  | accountId (id : Scalar)
  /-- The nullifier of the current note. -/
  | nullifier (n : Scalar)
deriving DecidableEq

namespace SearchKey

/-- The element whose hash is looked up. -/
def value : SearchKey → Scalar
  | .accountId id => id
  | .nullifier n => n

/-- The key of an account. -/
def ofAccount : Account → Action SearchKey
  | .unopened id => return .accountId id
  | .opened h => do
    let nonce ← liftM h.noteNonce
    let secrets ← prover (.secrets h.id nonce)
    return .nullifier secrets.nullifier

end SearchKey

namespace History

/-- The event among `es` that continues the account in the block `block`. There has to be exactly
one, and it has to be of the version `version`. -/
def select (version : ContractVersion) (a : Account) (block : UInt64) (es : List NoteEvent) :
    Action NoteEvent := do
  match ← NoteEvent.continuing version a es with
  | [e] =>
    if e.version = version then return e else throw (.eventVersion version e.version)
  | found => throw (.history (.eventCount block found.length))

/-- The transition that follows the account, if there is one on the chain. -/
def next? (version : ContractVersion) (a : Account) : Action (Option (Account × NoteEvent)) := do
  let key ← SearchKey.ofAccount a
  let h ← prover (.hash [key.value])
  match ← contract (.nullifierBlock h) with
  | none => return none
  | some block =>
    let es ← contract (.events block)
    let e ← select version a block es
    let b ← e.apply version a
    return some (b, e)

/-- How many look-ups a walk from the account can take. -/
def stepsLeft (a : Account) : Nat := UInt64.size - a.nonce.toNat

/-- Stores every account that follows `a` and tells the owner of it. The result is the number of
transitions, `applied` of which were made before. -/
def advance (version : ContractVersion) (r : Register) :
    (steps : Nat) → (applied : Nat) → Account → Action Nat
  | 0, applied, _ => return applied
  | steps + 1, applied, a => do
    match ← next? version a with
    | none => return applied
    | some (b, e) =>
      r.save b
      notify (.transaction e.transaction)
      advance version r steps (applied + 1) b

/-- Brings the stored account up to date. Passes over one account wait for each other. -/
def pass (version : ContractVersion) (r : Register) : Action Nat :=
  exclusive do
    let a ← r.load
    advance version r (stepsLeft a) 0 a

/-- The transactions that follow `a`, and the failure that cut them off, if one did. -/
def replayFrom (version : ContractVersion) :
    (steps : Nat) → Account → Program surroundings (List Transaction × Option Failure)
  | 0, _ => return ([], none)
  | steps + 1, a => do
    match ← (next? version a).run with
    | .error f => return ([], some f)
    | .ok none => return ([], none)
    | .ok (some (b, e)) =>
      let (ts, f) ← replayFrom version steps b
      return (e.transaction :: ts, f)

/-- All transactions of the account `id`. -/
def replay (version : ContractVersion) (id : Scalar) :
    Program surroundings (List Transaction × Option Failure) :=
  replayFrom version (stepsLeft (.unopened id)) (.unopened id)

end History

end ShieldedWallet
