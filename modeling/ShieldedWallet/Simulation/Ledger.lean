import ShieldedWallet.Payment.Commitment
import ShieldedWallet.Simulation.Prover

/-!
# A ledger in memory

The ledger holds the contract's state: the leaves of the note tree, and one block for each nullifier
hash that has been registered. A call is encoded once its version and proof have been checked; the
encoding is the number of the call. A transaction executes an encoded call in a block of its own,
and each encoding is used up by the first transaction that brings it to the contract.
-/

namespace ShieldedWallet.Simulation

structure Block where
  /-- The nullifier hash registered in the block. -/
  nullifierHash : Scalar
  events : List NoteEvent
deriving DecidableEq

/-- The block with its last event emitted once more. -/
def Block.repeated (b : Block) : Block := { b with events := b.events ++ b.events.getLast?.toList }

/-- The event of the movement that led to `a`, as the supported version emits it. -/
def announcement (m : Movement) (amount : UInt256) (a : Account) (index block : UInt64) :
    NoteEvent where
  movement := m
  version := .supported
  amount := amount
  note := a.note?.getD 0
  noteIndex := index
  destination := none
  relayerFee := none
  txHash := txHash block index
  block := block

/-- A call that has been encoded. -/
structure EncodedCall where
  movement : Movement
  /-- The call, its statement being the one that was checked. -/
  call : Call movement
deriving DecidableEq

/-- The state of the ledger. -/
structure Ledger where
  /-- The deployed version. -/
  version : ContractVersion := .supported
  /-- The leaves of the note tree, the first one first. -/
  leaves : List Scalar := []
  /-- The blocks, the first one first. -/
  blocks : List Block := []
  /-- The Merkle roots handed out with paths. -/
  roots : List Scalar := []
  /-- The rate of the protocol fee for deposits. -/
  depositRate : UInt256 := 0
  /-- The rate of the protocol fee for withdrawals. -/
  withdrawalRate : UInt256 := 0
  /-- The encoded calls by their number, those that are used up being gone. -/
  encoded : List (Option EncodedCall) := []
  /-- How many questions have been answered. -/
  calls : Nat := 0
deriving DecidableEq

namespace Ledger

/-- The address of the contract. -/
def address : Address := Vector.replicate 20 0x5e

/-- The number of the newest block. -/
def blockNumber (l : Ledger) : UInt64 := .ofNat l.blocks.length

/-! ## Reading -/

/-- The block in which a nullifier hash was registered. -/
def nullifierBlock? (l : Ledger) (h : Scalar) : Option UInt64 :=
  (l.blocks.findIdx? (·.nullifierHash = h)).map fun i => .ofNat (i + 1)

/-- The block with a number. -/
def block? (l : Ledger) (number : UInt64) : Option Block :=
  if number = 0 then none else l.blocks[number.toNat - 1]?

/-- The events of a block. -/
def events (l : Ledger) (number : UInt64) : List NoteEvent :=
  match l.block? number with
  | none => []
  | some b => b.events

/-- The sibling at a position of the path of a leaf. -/
def sibling (index : UInt64) (position : Nat) : Scalar :=
  digest "sibling" [] (Bytes.ofNatLE 8 index.toNat ++ Bytes.ofNatLE 8 position)

/-- The nodes of the path of the leaf `leaf` at `index`, without the root. -/
def pathNodes (leaf : Scalar) (index : UInt64) : List Scalar :=
  leaf :: (List.range (treeHeight * arity - 1)).map fun i => sibling index (i + 1)

/-- The path of a leaf up to its root, and the ledger that knows the root from now on. -/
def path? (l : Ledger) (index : UInt64) : Option (List Scalar × Ledger) :=
  l.leaves[index.toNat]?.map fun leaf =>
    let nodes := pathNodes leaf index
    let root := merkleRoot nodes
    (nodes ++ [root], { l with roots := root :: l.roots })

/-! ## Encoding -/

/-- Checks that a call was made for the deployed version. -/
def checkVersion (l : Ledger) (version : ContractVersion) : Except ContractFailure Unit :=
  if version = l.version then .ok ()
  else .error (.versionRejected
    ("expected " ++ version.text ++ ", deployed " ++ l.version.text))

/-- The call as it is checked: the value of a statement has to be the amount, and what a withdrawal
is bound to is computed from its payout. -/
def checkedCall (version : ContractVersion) :
    (m : Movement) → Call m → Except ContractFailure (Call m)
  | .opening, c =>
    if c.statement.deposit = .ofUInt256 c.amount ∧ c.proof = proof .opening c.statement then .ok c
    else .error (.rejected "invalid proof")
  | .deposit, c =>
    if c.statement.value = .ofUInt256 c.amount ∧ c.proof = proof .deposit c.statement then .ok c
    else .error (.rejected "invalid proof")
  | .withdrawal, c =>
    if c.amount < c.terms.fee then .error (.rejected "relayer fee exceeds amount")
    else
      let statement : WithdrawalStatement :=
        ⟨{ c.statement.toSpendStatement with value := .ofUInt256 c.amount },
          c.terms.commitment version⟩
      if c.proof = proof .withdrawal statement then .ok { c with statement := statement }
      else .error (.rejected "invalid proof")

/-- The encoding of a call, and the ledger that knows it from now on. -/
def encode (l : Ledger) (m : Movement) (version : ContractVersion) (call : Call m) :
    Except ContractFailure (Bytes × Ledger) := do
  l.checkVersion version
  let call ← checkedCall version m call
  return (Bytes.ofNatBE 8 l.encoded.length, { l with encoded := l.encoded ++ [some ⟨m, call⟩] })

def answer (q : ContractQuery) (l : Ledger) : Except ContractFailure q.Result × Ledger :=
  let l := { l with calls := l.calls + 1 }
  match q with
  | .path index =>
    match l.path? index with
    | some (path, l) => (.ok path, l)
    | none => (.error (.rpc ("no leaf at index " ++ Numeral.decimal index.toNat)), l)
  | .nullifierBlock h => (.ok (l.nullifierBlock? h), l)
  | .events number => (.ok (l.events number), l)
  | .encode m version _ call =>
    match l.encode m version call with
    | .ok (data, l) => (.ok data, l)
    | .error e => (.error e, l)
  | .rate .deposit => (.ok l.depositRate, l)
  | .rate .withdrawal => (.ok l.withdrawalRate, l)

/-! ## Executing -/

/-- Appends a note in a block of its own, registers a nullifier hash and emits the event. -/
def append (l : Ledger) (m : Movement) (amount : UInt256) (note nullifierHash : Scalar)
    (destination : Option Address) (relayerFee : Option UInt256) :
    Except String (Hash256 × Ledger) :=
  if l.blocks.any (·.nullifierHash = nullifierHash) then .error "nullifier already spent"
  else
    let block := UInt64.ofNat (l.blocks.length + 1)
    let index := UInt64.ofNat l.leaves.length
    let hash := txHash block index
    let event : NoteEvent :=
      { movement := m, version := l.version, amount, note, noteIndex := index, destination,
        relayerFee, txHash := hash, block }
    .ok (hash, { l with
      leaves := l.leaves ++ [note]
      blocks := l.blocks ++ [⟨nullifierHash, [event]⟩] })

/-- Executes a call. A spending needs a path to a root that the ledger has handed out. -/
def perform (l : Ledger) : (m : Movement) → Call m → Except String (Hash256 × Ledger)
  | .opening, c => l.append .opening c.amount c.statement.note c.statement.idHash none none
  | .deposit, c =>
    if c.statement.root ∈ l.roots then
      l.append .deposit c.amount c.statement.note c.statement.nullifierHash none none
    else .error "unknown merkle root"
  | .withdrawal, c =>
    if c.statement.root ∈ l.roots then
      l.append .withdrawal c.amount c.statement.note c.statement.nullifierHash
        (some c.terms.destination) (some c.terms.fee)
    else .error "unknown merkle root"

/-- The number that encodes a call. -/
def callNumber? (data : Bytes) : Option Nat := (Bytes.toFixed? 8 data).map FixedBytes.toNatBE

/-- The call with a number, if it is not used up. -/
def call? (l : Ledger) (n : Nat) : Option EncodedCall := l.encoded[n]?.bind id

/-- Executes the transaction `tx`. The call it brings is used up even if it is then refused. -/
def execute (l : Ledger) (tx : TransactionRequest) : Except String Hash256 × Ledger :=
  if tx.target ≠ address then (.error "transaction is not addressed to the shielder", l)
  else match callNumber? tx.data with
    | none => (.error "malformed calldata", l)
    | some n =>
      match l.call? n with
      | none => (.error "unknown or already executed calldata", l)
      | some ⟨m, call⟩ =>
        let l := { l with encoded := l.encoded.set n none }
        let expected := m.attached call.amount
        if tx.value ≠ expected then
          (.error ("attached value " ++ tx.value.text ++ " does not match " ++ expected.text), l)
        else match l.perform m call with
          | .ok (hash, l) => (.ok hash, l)
          | .error reason => (.error reason, l)

/-! ## What only the keeper of the ledger can do -/

/-- Appends a leaf without an event. The result is its position. -/
def pushLeaf (l : Ledger) (leaf : Scalar) : UInt64 × Ledger :=
  (.ofNat l.leaves.length, { l with leaves := l.leaves ++ [leaf] })

/-- The account `id` opened with `amount`. -/
def registered (id : Scalar) (amount : UInt256) : Account :=
  .opened ⟨id, 1, amount, Simulation.note id (secrets id 0) (.ofUInt256 amount), none⟩

/-- Opens an account without a call. The result is the account with the position of its note. -/
def register (l : Ledger) (id : Scalar) (amount : UInt256) : Except String (Account × Ledger) := do
  let a := registered id amount
  let (_, l) ← l.append .opening amount (a.note?.getD 0) (hash [id]) none none
  return (a.withNoteIndex (.ofNat (l.leaves.length - 1)), l)

/-- Emits the last event of the newest block once more. -/
def repeatLastEvent (l : Ledger) : Ledger :=
  { l with blocks := l.blocks.modify (l.blocks.length - 1) Block.repeated }

end Ledger

end ShieldedWallet.Simulation
