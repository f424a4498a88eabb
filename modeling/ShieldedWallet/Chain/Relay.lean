import ShieldedWallet.Account.Version
import ShieldedWallet.Json.Record

/-!
# Messages of the relayer

A relayer submits a withdrawal and pays for it; it takes its fee out of the amount. These are the
documents exchanged with it.
-/

namespace ShieldedWallet

/-- The withdrawal a relayer is asked to submit. -/
structure RelayRequest where
  /-- The contract version the proof was made for. -/
  version : ContractVersion
  /-- The amount withdrawn. -/
  amount : UInt256
  destination : Address
  /-- The Merkle root above the spent note. -/
  root : Scalar
  /-- The hash of the nullifier of the spent note. -/
  nullifierHash : Scalar
  /-- The note created by the withdrawal. -/
  note : Scalar
  fee : UInt256
  proof : Bytes
deriving DecidableEq

/-- The answer to a relayed withdrawal. -/
structure RelayReceipt where
  /-- The hash of the transaction. -/
  txHash : Hash256
deriving DecidableEq

/-- What a relayer asks for a withdrawal. -/
structure RelayQuote where
  /-- The cost of the transaction. -/
  base : UInt256
  /-- The reward of the relayer. -/
  relay : UInt256
  /-- The fee to be put into a request. -/
  total : UInt256
deriving DecidableEq

/-- A relay request in JSON. -/
def RelayRequest.format : RecordFormat RelayRequest where
  fields :=
    [{ Value := ContractVersion, name := "expected_contract_version",
       codec := ContractVersion.codec },
     { Value := UInt256, name := "amount", codec := .decimalAmount },
     { Value := Address, name := "withdraw_address", codec := .fixedBytes 20 },
     { Value := Scalar, name := "merkle_root", codec := .decimalScalar },
     { Value := Scalar, name := "nullifier_hash", codec := .decimalScalar },
     { Value := Scalar, name := "new_note", codec := .decimalScalar },
     { Value := UInt256, name := "fee_amount", codec := .decimalAmount },
     { Value := Bytes, name := "proof", codec := .list .byte }]
  closed := true
  toValues r :=
    (r.version, r.amount, r.destination, r.root, r.nullifierHash, r.note, r.fee, r.proof, ())
  ofValues := fun (version, amount, destination, root, nullifierHash, note, fee, proof, ()) =>
    { version, amount, destination, root, nullifierHash, note, fee, proof }

/-- A receipt in JSON. -/
def RelayReceipt.format : RecordFormat RelayReceipt where
  fields := [{ Value := Hash256, name := "tx_hash", codec := .fixedBytes 32 }]
  closed := false
  toValues r := (r.txHash, ())
  ofValues := fun (txHash, ()) => { txHash }

/-- A quote in JSON. -/
def RelayQuote.format : RecordFormat RelayQuote where
  fields :=
    [{ Value := UInt256, name := "base_fee", codec := .decimalAmount },
     { Value := UInt256, name := "relay_fee", codec := .decimalAmount },
     { Value := UInt256, name := "total_fee", codec := .decimalAmount }]
  closed := false
  toValues q := (q.base, q.relay, q.total, ())
  ofValues := fun (base, relay, total, ()) => { base, relay, total }

end ShieldedWallet
