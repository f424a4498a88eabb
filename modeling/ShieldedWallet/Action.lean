import ShieldedWallet.Chain.Contract
import ShieldedWallet.Chain.Relay
import ShieldedWallet.Notice
import ShieldedWallet.Program

/-!
# What the wallet asks

An action is a program over the wallet's surroundings that may fail. The failures of the other
parties become failures of the wallet as they are met.
-/

namespace ShieldedWallet

/-- What a relayer can be asked. -/
inductive RelayerQuery where
  /-- The address that receives the fee. -/
  | address
  /-- To submit a withdrawal. -/
  | submit (request : RelayRequest)
  /-- The present fees. -/
  | quote

/-- What a relayer answers when it succeeds. -/
@[reducible]
def RelayerQuery.Result : RelayerQuery → Type
  | .address => Address
  | .submit _ => Hash256
  | .quote => RelayQuote

/-- What the wallet can ask of its surroundings. -/
inductive Query where
  /-- A question to the prover. -/
  | prover (q : ProverQuery)
  /-- A question to the contract. -/
  | contract (q : ContractQuery)
  /-- The address of the contract, which is known without asking it. -/
  | contractAddress
  /-- The item stored under a key. -/
  | load (key : String)
  /-- To store an item under a key. -/
  | store (key : String) (item : Bytes)
  /-- A question to the relayer. -/
  | relayer (q : RelayerQuery)
  /-- To sign and send a transaction. -/
  | submit (tx : TransactionRequest)
  /-- To tell the owner something. -/
  | notify (n : Notice)
  /-- To wait until no other synchronisation of the account is going on. -/
  | acquire
  /-- To let other synchronisations of the account go on. -/
  | release

/-- The answers to the questions of the wallet. -/
@[reducible]
def Query.Answer : Query → Type
  | .prover q => Except ProverFailure q.Result
  | .contract q => Except ContractFailure q.Result
  | .contractAddress => Address
  | .load _ => Except StorageFailure (Option Bytes)
  | .store _ _ => Except StorageFailure Unit
  | .relayer q => Except RelayerFailure q.Result
  | .submit _ => Except String Hash256
  | .notify _ => Unit
  | .acquire => Unit
  | .release => Unit

/-- The surroundings of the wallet. -/
abbrev surroundings : Interface := ⟨Query, Query.Answer⟩

/-- A program of the wallet that may fail. -/
abbrev Action := ExceptT Failure (Program surroundings)

/-- The program that asks one question. -/
def Query.program (q : Query) : Program surroundings q.Answer := Program.query (I := surroundings) q

namespace Action

variable {α ε : Type}

/-- Asks a question that may be answered by a failure, which is then read as `f` says. -/
def ofProgram (f : ε → Failure) (p : Program surroundings (Except ε α)) : Action α :=
  ExceptT.mk (p.bind fun r => .done (r.mapError f))

/-- Asks the prover. -/
def prover (q : ProverQuery) : Action q.Result := ofProgram .prover (Query.prover q).program

/-- Asks the contract, a failure being read as `f` says. -/
def contractOr (f : ContractFailure → Failure) (q : ContractQuery) : Action q.Result :=
  ofProgram f (Query.contract q).program

/-- Asks the contract. -/
def contract (q : ContractQuery) : Action q.Result := contractOr .ofContract q

def contractAddress : Action Address := ExceptT.lift Query.contractAddress.program

/-- The item stored under `key`. -/
def load (key : String) : Action (Option Bytes) := ofProgram .storage (Query.load key).program

/-- Stores `item` under `key`. -/
def store (key : String) (item : Bytes) : Action Unit :=
  ofProgram .storage (Query.store key item).program

/-- Asks the relayer, a failure being read as `f` says. -/
def relayerOr (f : RelayerFailure → Failure) (q : RelayerQuery) : Action q.Result :=
  ofProgram f (Query.relayer q).program

/-- Asks the relayer. -/
def relayer (q : RelayerQuery) : Action q.Result := relayerOr .ofRelayer q

/-- Signs and sends a transaction of the movement `m`. -/
def submit (m : Movement) (tx : TransactionRequest) : Action Hash256 :=
  ofProgram (.submission m) (Query.submit tx).program

/-- Tells the owner something. -/
def notify (n : Notice) : Action Unit := ExceptT.lift (Query.notify n).program

/-- Tells the owner if `x` fails. -/
def reporting (stage : Stage) (operation : Operation) (x : Action α) : Action α :=
  ExceptT.mk (x.run.bind fun
    | .ok a => .done (.ok a)
    | .error f =>
      (Query.notify (.ofFailure f stage operation)).program.bind fun _ => .done (.error f))

/-- Keeps other synchronisations of the account waiting while `x` runs, whether it fails or not. -/
def exclusive (x : Action α) : Action α :=
  ExceptT.mk (Query.acquire.program.bind fun _ =>
    x.run.bind fun r => Query.release.program.bind fun _ => .done r)

end Action

end ShieldedWallet
