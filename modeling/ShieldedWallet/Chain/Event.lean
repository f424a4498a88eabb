import ShieldedWallet.Account.State
import ShieldedWallet.Account.Version
import ShieldedWallet.Json.Record

/-!
# Note events and transactions

The contract emits an event for every note it appends. A transaction is what the owner of an account
is told about an event that advanced it.
-/

namespace ShieldedWallet

/-- A movement in JSON: its name, or an object with the name as its only key. -/
def Movement.codec : Codec Movement where
  write m := .text m.name
  read? j :=
    let key? := match j with
      | .string s => s
      | .object [(k, .null)] => k
      | _ => none
    [Movement.opening, .deposit, .withdrawal].find? fun m => key? = some m.name.toList

/-- The event of a note appended to the note tree. -/
structure NoteEvent where
  /-- The movement that created the note. -/
  movement : Movement
  /-- The version of the contract that emitted the event. -/
  version : ContractVersion
  /-- The amount moved. -/
  amount : UInt256
  /-- The new note. -/
  note : Scalar
  /-- The position of the new note among the leaves. -/
  noteIndex : UInt64
  /-- The destination of a withdrawal. -/
  destination : Option Address
  /-- The fee paid to the relayer of a withdrawal. -/
  relayerFee : Option UInt256
  /-- The hash of the transaction. -/
  txHash : Hash256
  /-- The number of the block. -/
  block : UInt64
deriving DecidableEq

/-- A transaction of an account. -/
structure Transaction where
  /-- The movement of funds. -/
  movement : Movement
  /-- The amount moved. -/
  amount : UInt256
  /-- The destination of a withdrawal. -/
  destination : Option Address
  /-- The fee paid to the relayer of a withdrawal. -/
  relayerFee : Option UInt256
  /-- The note created by the transaction. -/
  note : Scalar
  txHash : Hash256
  /-- The number of the block. -/
  block : UInt64
deriving DecidableEq

/-- The transaction announced by an event. -/
def NoteEvent.transaction (e : NoteEvent) : Transaction where
  movement := e.movement
  amount := e.amount
  destination := e.destination
  relayerFee := e.relayerFee
  note := e.note
  txHash := e.txHash
  block := e.block

/-- An event in JSON. -/
def NoteEvent.format : RecordFormat NoteEvent where
  fields :=
    [{ Value := Movement, name := "kind", codec := Movement.codec },
     { Value := ContractVersion, name := "contractVersion", codec := ContractVersion.codec },
     { Value := UInt256, name := "amount", codec := .amount },
     { Value := Scalar, name := "newNote", codec := .decimalScalar },
     { Value := UInt64, name := "newNoteIndex", codec := .word64 },
     { Value := Option Address, name := "to", codec := .optional (.fixedBytes 20),
       ifMissing := some none },
     { Value := Option UInt256, name := "relayerFee", codec := .optional .amount,
       ifMissing := some none },
     { Value := Hash256, name := "txHash", codec := .fixedBytes 32 },
     { Value := UInt64, name := "block", codec := .word64 }]
  closed := true
  toValues e :=
    (e.movement, e.version, e.amount, e.note, e.noteIndex, e.destination, e.relayerFee, e.txHash,
      e.block, ())
  ofValues := fun (movement, version, amount, note, noteIndex, destination, relayerFee, txHash,
      block, ()) =>
    { movement, version, amount, note, noteIndex, destination, relayerFee, txHash, block }

/-- A transaction in JSON. -/
def Transaction.format : RecordFormat Transaction where
  fields :=
    [{ Value := Movement, name := "kind", codec := Movement.codec },
     { Value := UInt256, name := "amount", codec := .amount },
     { Value := Option Address, name := "to", codec := .optional (.fixedBytes 20),
       ifMissing := some none },
     { Value := Option UInt256, name := "relayerFee", codec := .optional .amount,
       ifMissing := some none },
     { Value := Scalar, name := "newNote", codec := .decimalScalar },
     { Value := Hash256, name := "txHash", codec := .fixedBytes 32 },
     { Value := UInt64, name := "block", codec := .word64 }]
  closed := true
  toValues t :=
    (t.movement, t.amount, t.destination, t.relayerFee, t.note, t.txHash, t.block, ())
  ofValues := fun (movement, amount, destination, relayerFee, note, txHash, block, ()) =>
    { movement, amount, destination, relayerFee, note, txHash, block }

end ShieldedWallet
