import ShieldedWallet.Fee.Cache
import ShieldedWallet.Simulation.Fault
import ShieldedWallet.Simulation.Ledger
import ShieldedWallet.Wallet

/-!
# A world of wallets

Any number of wallets share a prover, a ledger, a relayer and some storages. Every question of a
wallet meets the planned faults first, then the substitutes, and then the party it is put to.
-/

namespace ShieldedWallet.Simulation

/-- How the wallets reach the prover. -/
inductive ProverLink where
  /-- They ask it themselves. -/
  | direct
  /-- A worker serves them. -/
  | served
  /-- Nobody listens. -/
  | stopped
  /-- A listener drops every question. -/
  | dropping
deriving DecidableEq

/-- What is stored under each key. -/
abbrev Storage := String → Option Bytes

structure RelayerState where
  /-- How many questions have been answered. -/
  calls : Nat := 0
  /-- The fee it asks for. -/
  fee : UInt256 := 1
deriving DecidableEq

def relayerAddress : Address := Vector.replicate 20 0x7e

/-- A wallet with what belongs to it alone. -/
structure Client where
  wallet : Wallet
  /-- The number of its storage. -/
  storage : Nat
  /-- The fee rates it knows. -/
  rates : RateCache := {}
  /-- What its owner has been told since it was last asked for. -/
  notices : List Notice := []

structure World where
  /-- How the wallets reach the prover. -/
  link : ProverLink
  channel : Channel Worker.requesting
  prover : ProverState := {}
  ledger : Ledger := {}
  relayer : RelayerState := {}
  /-- How many transactions have been sent and accepted. -/
  sent : Nat := 0
  /-- The fee rates known outside the wallets. -/
  rates : RateCache := {}
  /-- The storages by their number. -/
  storages : Nat → Storage := fun _ _ => none
  /-- The wallets. -/
  clients : List Client := []
  /-- The planned faults. -/
  faults : Faults := {}
  /-- The substituted answers. -/
  substitutes : Substitutes := {}

namespace World

def new (link : ProverLink) (relayerFee : UInt256) : World where
  link := link
  channel := match link with
    | .stopped => Channel.new.dropListener
    | _ => .new
  relayer := { fee := relayerFee }

/-! ## The parties -/

/-- The answer of the prover, over the link. -/
def askProver (q : ProverQuery) (w : World) : proving.Answer q × World :=
  match w.link with
  | .direct =>
    let (r, prover) := Simulation.prover q w.prover
    (r, { w with prover })
  | .served =>
    let (r, channel, prover) :=
      Worker.ask (Worker.serving Simulation.prover) q (w.channel, w.prover)
    (r, { w with channel, prover })
  | .stopped | .dropping =>
    let (r, channel, prover) := Worker.ask Worker.discarding q (w.channel, w.prover)
    (r, { w with channel, prover })

/-- Something that happens on the ledger without a question of a wallet. -/
def onLedger {α : Type} (f : Ledger → α × Ledger) (w : World) : α × World :=
  let (a, ledger) := f w.ledger
  (a, { w with ledger })

/-- The answer of the ledger. -/
def askLedger (q : ContractQuery) (w : World) : Except ContractFailure q.Result × World :=
  w.onLedger fun l => l.answer q

/-- The call a relayer makes of a request. It takes the fee itself, and leaves the value and the
commitment to the contract. -/
def relayedCall (r : RelayRequest) : Call .withdrawal where
  statement :=
    { root := r.root
      nullifierHash := r.nullifierHash
      note := r.note
      value := .ofUInt256 r.amount
      commitment := 0 }
  proof := r.proof
  amount := r.amount
  terms := ⟨r.destination, relayerAddress, r.fee⟩

/-- The failure of a relayer whose call was refused by the contract. -/
def relayedFailure : ContractFailure → RelayerFailure
  | .versionRejected reason => .versionRejected ("\"Version mismatch: " ++ reason ++ "\"")
  | e => .response e.message

/-- The relayer encodes and executes a withdrawal. -/
def relay (r : RelayRequest) (l : Ledger) : Except RelayerFailure Hash256 × Ledger :=
  match l.answer (.encode .withdrawal r.version relayerAddress (relayedCall r)) with
  | (.error e, l) => (.error (relayedFailure e), l)
  | (.ok data, l) =>
    let (result, l) := l.execute ⟨relayerAddress, Ledger.address, data, 0⟩
    (result.mapError .response, l)

/-- The answer of the relayer. -/
def askRelayer (q : RelayerQuery) (w : World) : Except RelayerFailure q.Result × World :=
  let w := { w with relayer := { w.relayer with calls := w.relayer.calls + 1 } }
  match q with
  | .address => (.ok relayerAddress, w)
  | .submit r =>
    let (result, ledger) := relay r w.ledger
    (result, { w with ledger })
  | .quote => (.ok ⟨w.relayer.fee, 0, w.relayer.fee⟩, w)

/-- Executes a transaction that a wallet sends. -/
def execute (tx : TransactionRequest) (w : World) : Except String Hash256 × World :=
  match w.ledger.execute tx with
  | (.ok hash, ledger) => (.ok hash, { w with ledger, sent := w.sent + 1 })
  | (.error reason, ledger) => (.error reason, { w with ledger })

/-! ## Storages -/

/-- Replaces the storage `n`. -/
def setStorage (w : World) (n : Nat) (s : Storage) : World :=
  { w with storages := fun i => if i = n then s else w.storages i }

/-- Stores an item under a key of the storage `n`. -/
def storeItem (w : World) (n : Nat) (key : String) (item : Bytes) : World :=
  w.setStorage n fun k => if k = key then some item else w.storages n k

/-- Changes the wallet `c`. -/
def modifyClient (w : World) (c : Nat) (f : Client → Client) : World :=
  { w with clients := w.clients.modify c f }

/-! ## The surroundings of a wallet -/

/-- The answer to a question that does not meet a fault, of the wallet `c` with the storage
`storage`. -/
def answerTrue (c storage : Nat) : Environment surroundings World
  | .prover q, w =>
    match w.substitutes.proverAnswer? q with
    | some a => (.ok a, w)
    | none =>
      let (r, w) := w.askProver q
      (w.substitutes.tamperAnswer q r, w)
  | .contract q, w =>
    match w.substitutes.contractAnswer? q with
    | some a => (.ok a, w)
    | none => w.askLedger q
  | .contractAddress, w => (Ledger.address, w)
  | .load key, w => (.ok (w.storages storage key), w)
  | .store key item, w => (.ok (), w.storeItem storage key item)
  | .relayer q, w => w.askRelayer q
  | .submit tx, w => w.execute tx
  | .notify n, w => ((), w.modifyClient c fun k => { k with notices := k.notices ++ [n] })
  | .acquire, w => ((), w)
  | .release, w => ((), w)

/-- The failure that a question meets, if one is planned for it, and the world from then on. -/
def meetFault (w : World) : (q : Query) → Option q.Answer × World
  | .prover q =>
    let (f, prover) := w.faults.prover.meet (.ofQuery q)
    (f.map .error, { w with faults := { w.faults with prover } })
  | .contract q =>
    let (f, contract) := w.faults.contract.meet (.ofQuery q)
    (f.map .error, { w with faults := { w.faults with contract } })
  | .load _ =>
    let (f, storage) := w.faults.storage.meet .load
    (f.map .error, { w with faults := { w.faults with storage } })
  | .store _ _ =>
    let (f, storage) := w.faults.storage.meet .store
    (f.map .error, { w with faults := { w.faults with storage } })
  | .relayer q =>
    let (f, relayer) := w.faults.relayer.meet (.ofQuery q)
    (f.map .error, { w with faults := { w.faults with relayer } })
  | .submit _ =>
    let (f, sender) := w.faults.sender.meet ()
    (f.map .error, { w with faults := { w.faults with sender } })
  | .contractAddress | .notify _ | .acquire | .release => (none, w)

/-- The surroundings of the wallet `c` with the storage `storage`. -/
def answer (c storage : Nat) : Environment surroundings World
  | q, w =>
    match w.meetFault q with
    | (some a, w) => (a, w)
    | (none, w) => answerTrue c storage q w

/-- Runs a program of the wallet `c`. Programs that belong to no wallet use neither a storage nor
notices, and may be run for any number. -/
def run {α : Type} (c : Nat) (p : Program surroundings α) (w : World) : α × World :=
  p.run (answer c ((w.clients[c]?.map (·.storage)).getD c)) w

/-- Runs an action that belongs to no wallet. -/
def runAlone {α : Type} (p : Action α) (w : World) : Except Failure α × World :=
  w.run w.clients.length p.run

/-! ## What happens in a world -/

/-- Adds a wallet. The result is the identifier of its account. -/
def addClient (settings : Settings) (signingKey : Hash256) (storage : Nat) (w : World) :
    Except Failure Scalar × World :=
  match w.runAlone (Wallet.ofKey settings signingKey) with
  | (.ok wallet, w) => (.ok wallet.id, { w with clients := w.clients ++ [{ wallet, storage }] })
  | (.error f, w) => (.error f, w)

/-- What is stored for a wallet. -/
def stored? (c : Client) (w : World) : Option Bytes :=
  w.storages c.storage c.wallet.settings.storageKey

/-- Two passes of the wallet `c` that are started together. The first one holds the lock until it
has ended, so the second one starts from what the first one has stored. -/
def syncTwice (c : Nat) (wallet : Wallet) (w : World) :
    (Except Failure Nat × Except Failure Nat) × World :=
  let (first, w) := w.run c wallet.sync.run
  let (second, w) := w.run c wallet.sync.run
  ((first, second), w)

/-- The fee rates known to the wallet `c`, or outside the wallets. -/
def ratesOf (w : World) : Option Nat → RateCache
  | some c => (w.clients[c]?.map (·.rates)).getD {}
  | none => w.rates

/-- Replaces the fee rates known to the wallet `c`, or outside the wallets. -/
def setRates (w : World) (rates : RateCache) : Option Nat → World
  | some c => w.modifyClient c fun k => { k with rates }
  | none => { w with rates }

/-- Asks for a quote with the rates known to the wallet `c`, or outside the wallets. -/
def quote (c : Option Nat) (k : FeeKind) (amount : UInt256) (included : Bool) (w : World) :
    Except Failure FeeQuote × World :=
  match w.runAlone ((w.ratesOf c).quote k amount included) with
  | (.ok (q, rates), w) => (q, w.setRates rates c)
  | (.error f, w) => (.error f, w)

/-- Asks the contract for a rate, which is then known to the wallet `c`, or outside the wallets. -/
def refreshRate (c : Option Nat) (k : FeeKind) (w : World) : Except Failure UInt256 × World :=
  match w.runAlone ((w.ratesOf c).refresh k) with
  | (.ok (rate, rates), w) => (.ok rate, w.setRates rates c)
  | (.error f, w) => (.error f, w)

/-- Opens an account on the ledger. The prover is asked five times for it. -/
def register (id : Scalar) (amount : UInt256) (w : World) : Except String Account × World :=
  let w := { w with prover := { w.prover with calls := w.prover.calls + 5 } }
  match w.ledger.register id amount with
  | .ok (a, ledger) => (.ok a, { w with ledger })
  | .error reason => (.error reason, w)

/-- What the owners have been told since they were last asked for, by the number of the wallet. -/
def takeNotices (w : World) : List (Nat × List Notice) × World :=
  ((w.clients.zipIdx.map fun (k, i) => (i, k.notices)).filter (!·.2.isEmpty),
    { w with clients := w.clients.map fun k => { k with notices := [] } })

end World

end ShieldedWallet.Simulation
