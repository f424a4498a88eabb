import ShieldedWallet.History.Walk
import ShieldedWallet.Payment.Opening
import ShieldedWallet.Payment.Spending
import ShieldedWallet.Settings.Basic

/-!
# The wallet

A wallet looks after one account: it moves funds and keeps the stored state up to date with the
chain. Sending a transaction does not change the stored state; only a pass over the history does,
once the transaction is on the chain. Every failure is told to the owner, with what was being done,
before it is returned.
-/

namespace ShieldedWallet

open ShieldedWallet.Action

structure Wallet where
  settings : Settings
  /-- The register of the account. -/
  register : Register
deriving DecidableEq

namespace Wallet

/-- The wallet of the account owned by a signing key. -/
def ofKey (settings : Settings) (signingKey : Hash256) : Action Wallet := do
  let register ← Register.ofKey signingKey settings.chainId settings.storageKey
  return ⟨settings, register⟩

/-- The identifier of the account. -/
def id (w : Wallet) : Scalar := w.register.id

/-- The stored account. -/
def account (w : Wallet) : Action Account := w.register.load

/-- Tells the owner that a call is prepared, sends it, and tells the owner that it is sent. -/
def deliver {m : Movement} (c : Calldata m) (send : Action Hash256) : Action Hash256 := do
  notify (.prepared c.summary (.move m))
  let txHash ← reporting .sending (.move m) send
  notify (.sent txHash (.move m))
  return txHash

/-- Opens the account with the deposit `amount`. -/
def openWith (w : Wallet) (a : Account) (amount : UInt256) (sender : Address) :
    Action Hash256 := do
  let version := w.settings.version
  let c ← reporting .generation (.move .opening) (Opening.prepare version a amount version)
  deliver c (c.send sender)

def deposit (w : Wallet) (a : Account) (amount : UInt256) (sender : Address) :
    Action Hash256 := do
  let version := w.settings.version
  let c ← reporting .generation (.move .deposit) (Deposit.prepare version a amount version)
  deliver c (c.send sender)

/-- Moves `amount` into the account, which is opened if it has no note yet. The transaction is sent
and paid for by `sender`. -/
def shield (w : Wallet) (amount : UInt256) (sender : Address) : Action Hash256 := do
  let a ← reporting .generation (.move .opening) w.account
  if a.nonce = 0 then w.openWith a amount sender else w.deposit a amount sender

/-- Moves `amount` out of the account to `destination` through the relayer, which takes `fee` out of
the amount. -/
def withdraw (w : Wallet) (amount fee : UInt256) (destination : Address) : Action Hash256 := do
  let version := w.settings.version
  let c ← reporting .generation (.move .withdrawal) do
    let a ← w.account
    liftM (Withdrawal.check a amount fee)
    let relayer ← relayer .address
    Withdrawal.prepare version a amount ⟨destination, relayer, fee⟩ version
  deliver c c.relay

/-- Moves `amount` out of the account to `destination` without a relayer. The transaction is sent
and paid for by `sender`, who also takes the relayer's place, at no fee. -/
def withdrawAlone (w : Wallet) (amount : UInt256) (destination sender : Address) :
    Action Hash256 := do
  let version := w.settings.version
  let c ← reporting .generation (.move .withdrawal) do
    let a ← w.account
    Withdrawal.prepare version a amount ⟨destination, sender, 0⟩ version
  deliver c (c.send sender)

/-- Brings the stored account up to date with the chain. The result is the number of transactions
that were missing. -/
def sync (w : Wallet) : Action Nat :=
  reporting .syncing .sync (History.pass w.settings.version w.register)

/-- All transactions of the account, read off the chain, and the failure that cut them off, if one
did. The stored account is not touched. -/
def history (w : Wallet) : Program surroundings (List Transaction × Option Failure) := do
  let (ts, f) ← History.replay w.settings.version w.id
  match f with
  | none => return (ts, none)
  | some f =>
    let _ ← (notify (.ofFailure f .syncing .sync)).run
    return (ts, some f)

/-- What the relayer asks for a withdrawal. -/
def relayQuote : Action RelayQuote := relayer .quote

end Wallet

end ShieldedWallet
