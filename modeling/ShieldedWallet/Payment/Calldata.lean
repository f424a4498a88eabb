import ShieldedWallet.Action

/-!
# Prepared calls

A prepared call holds a verified proof and what it proves, made for one contract version. It is sent
as a transaction of its own, or, if it is a withdrawal, through a relayer.
-/

namespace ShieldedWallet

open ShieldedWallet.Action

/-- A call prepared for a contract version. -/
structure Calldata (m : Movement) where
  call : Call m
  /-- The version the call was prepared for. -/
  version : ContractVersion
deriving DecidableEq

namespace Calldata

/-- What is told about a prepared call. -/
def summary {m : Movement} (c : Calldata m) : CallSummary := ⟨m, c.call.amount, c.version⟩

/-- Proves `w`, compares what was proved with `statement`, which is computed meanwhile, and verifies
the proof. -/
def certify (m : Movement) (w : Witness m) (statement : Action (Statement m)) :
    Action (Statement m × Bytes) := do
  let (proof, proved) ← ofProgram (fun f => .whileProving m (.prover f))
    (Query.prover (.prove m w)).program
  let stated ← statement
  if proved ≠ stated then throw (.statementMismatch m)
  let valid ← prover (.verify m proof stated)
  if valid then return (stated, proof) else throw (.proofRejected m)

/-- Encodes a call and sends it from `sender`. -/
def send {m : Movement} (c : Calldata m) (sender : Address) : Action Hash256 := do
  let data ← contractOr (fun f => .whileSubmitting m (.ofContract f))
    (.encode m c.version sender c.call)
  let target ← contractAddress
  Action.submit m ⟨sender, target, data, m.attached c.call.amount⟩

/-- What a relayer is asked in order to submit a withdrawal. -/
def relayRequest (c : Calldata .withdrawal) : RelayRequest where
  version := c.version
  amount := c.call.amount
  destination := c.call.terms.destination
  root := c.call.statement.root
  nullifierHash := c.call.statement.nullifierHash
  note := c.call.statement.note
  fee := c.call.terms.fee
  proof := c.call.proof

/-- Has a withdrawal submitted by the relayer. -/
def relay (c : Calldata .withdrawal) : Action Hash256 :=
  relayerOr (fun f => .whileSubmitting .withdrawal (.ofRelayer f)) (.submit c.relayRequest)

end Calldata

end ShieldedWallet
