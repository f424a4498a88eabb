import ShieldedWallet.Channel.Basic
import ShieldedWallet.Prover.Statement

/-!
# A prover behind a channel

The prover may run elsewhere. A client takes its place: it sends a request for whatever it is asked. A
worker takes the requests out of the channel one at a time, in their order, has the prover do what is
requested, and responds. There is one kind of request for each thing a prover can do, and its responder
takes the kind of result that this has. The worker ends when every requester is gone. A question that
cannot be sent or is never answered fails with the failure of the channel.
-/

namespace ShieldedWallet

/-- The questions to a prover. -/
abbrev proving : Interface := ⟨ProverQuery, fun q => Except ProverFailure q.Result⟩

namespace Worker

/-- What a client can request. -/
inductive Request where
  | hash (inputs : List Scalar)
  | arity
  | treeHeight
  | secrets (id : Scalar) (nonce : UInt64)
  | keyElement (key : Hash256)
  | accountId (key : Hash256) (chainId : UInt64)
  | proveOpening (w : OpeningWitness)
  | verifyOpening (proof : Bytes) (s : OpeningStatement)
  | proveDeposit (w : SpendWitness)
  | verifyDeposit (proof : Bytes) (s : SpendStatement)
  | proveWithdrawal (w : WithdrawalWitness)
  | verifyWithdrawal (proof : Bytes) (s : WithdrawalStatement)
deriving DecidableEq

/-- What a responder takes when the prover succeeds. -/
@[reducible]
def Request.Result : Request → Type
  | .hash _ => Scalar
  | .arity => Nat
  | .treeHeight => Nat
  | .secrets _ _ => Secrets
  | .keyElement _ => Scalar
  | .accountId _ _ => Scalar
  | .proveOpening _ => Bytes × OpeningStatement
  | .verifyOpening _ _ => Bool
  | .proveDeposit _ => Bytes × SpendStatement
  | .verifyDeposit _ _ => Bool
  | .proveWithdrawal _ => Bytes × WithdrawalStatement
  | .verifyWithdrawal _ _ => Bool

/-- The requests to a worker. -/
abbrev requesting : Interface := ⟨Request, fun r => Except ProverFailure r.Result⟩

/-! ## The client -/

/-- A request, and what its outcome means. -/
structure Call (α : Type) where
  request : Request
  outcome : Except ChannelFailure (requesting.Answer request) → α

/-- Requests `r` and waits for the result of the worker. -/
def Call.of (r : Request) : Call (requesting.Answer r) where
  request := r
  outcome
    | .ok result => result
    | .error cause => .error (.channel cause)

namespace Client

def hash (inputs : List Scalar) : Call (Except ProverFailure Scalar) := .of (.hash inputs)

def arity : Call (Except ProverFailure Nat) := .of .arity

def treeHeight : Call (Except ProverFailure Nat) := .of .treeHeight

def secrets (id : Scalar) (nonce : UInt64) : Call (Except ProverFailure Secrets) :=
  .of (.secrets id nonce)

def keyElement (key : Hash256) : Call (Except ProverFailure Scalar) := .of (.keyElement key)

def accountId (key : Hash256) (chainId : UInt64) : Call (Except ProverFailure Scalar) :=
  .of (.accountId key chainId)

def proveOpening (w : OpeningWitness) : Call (Except ProverFailure (Bytes × OpeningStatement)) :=
  .of (.proveOpening w)

def verifyOpening (proof : Bytes) (s : OpeningStatement) : Call (Except ProverFailure Bool) :=
  .of (.verifyOpening proof s)

def proveDeposit (w : SpendWitness) : Call (Except ProverFailure (Bytes × SpendStatement)) :=
  .of (.proveDeposit w)

def verifyDeposit (proof : Bytes) (s : SpendStatement) : Call (Except ProverFailure Bool) :=
  .of (.verifyDeposit proof s)

def proveWithdrawal (w : WithdrawalWitness) :
    Call (Except ProverFailure (Bytes × WithdrawalStatement)) :=
  .of (.proveWithdrawal w)

def verifyWithdrawal (proof : Bytes) (s : WithdrawalStatement) : Call (Except ProverFailure Bool) :=
  .of (.verifyWithdrawal proof s)

/-- What the client does when it is asked in place of a prover. -/
def call : (q : ProverQuery) → Call (proving.Answer q)
  | .hash inputs => hash inputs
  | .arity => arity
  | .treeHeight => treeHeight
  | .secrets id nonce => secrets id nonce
  | .keyElement key => keyElement key
  | .accountId key chainId => accountId key chainId
  | .prove .opening w => proveOpening w
  | .prove .deposit w => proveDeposit w
  | .prove .withdrawal w => proveWithdrawal w
  | .verify .opening proof s => verifyOpening proof s
  | .verify .deposit proof s => verifyDeposit proof s
  | .verify .withdrawal proof s => verifyWithdrawal proof s

end Client

/-! ## The worker -/

variable {σ : Type}

/-- What the worker has the prover do for a request, and with what it responds then. -/
def handle : (r : Request) → Program proving (requesting.Answer r)
  | .hash inputs => .query (I := proving) (.hash inputs)
  | .arity => .query (I := proving) .arity
  | .treeHeight => .query (I := proving) .treeHeight
  | .secrets id nonce => .query (I := proving) (.secrets id nonce)
  | .keyElement key => .query (I := proving) (.keyElement key)
  | .accountId key chainId => .query (I := proving) (.accountId key chainId)
  | .proveOpening w => .query (I := proving) (.prove .opening w)
  | .verifyOpening proof s => .query (I := proving) (.verify .opening proof s)
  | .proveDeposit w => .query (I := proving) (.prove .deposit w)
  | .verifyDeposit proof s => .query (I := proving) (.verify .deposit proof s)
  | .proveWithdrawal w => .query (I := proving) (.prove .withdrawal w)
  | .verifyWithdrawal proof s => .query (I := proving) (.verify .withdrawal proof s)

/-- Responds to the request `number`, which is `r`, whether anybody waits or not. The responder of
another request would not take the result. -/
def reply (c : Channel requesting) (number : Nat) (r : Request) (result : requesting.Answer r) :
    Channel requesting :=
  match c.respond number fun r' =>
      if h : r = r' then h ▸ result else .error (.channel .dropped) with
  | some (_, c) => c
  | none => c

/-- Whether a worker goes on. -/
inductive Status where
  /-- The worker waits for a request. -/
  | waiting
  | ended
deriving DecidableEq

/-- Handles at most `n` requests with the prover `env`. -/
def serve (env : Environment proving σ) :
    (n : Nat) → Channel requesting × σ → Status × Channel requesting × σ
  | 0, (c, s) => (.waiting, c, s)
  | n + 1, (c, s) =>
    match c.next with
    | (.ended, c) => (.ended, c, s)
    | (.pending, c) => (.waiting, c, s)
    | (.request number r, c) =>
      let (result, s) := (handle r).run env s
      serve env n (reply c number r result, s)

/-- Takes the oldest request out of the queue and drops it. -/
def discard (c : Channel requesting) : Channel requesting :=
  match c.next with
  | (.request number _, c) => c.dropResponder number
  | (_, c) => c

/-! ## Both together -/

/-- Asks the client `q`, which uses the requester 0, while the other end does what `listener` says. -/
def ask (listener : Channel requesting × σ → Channel requesting × σ) :
    Environment proving (Channel requesting × σ)
  | q, (c, s) =>
    let x := Client.call q
    match c.start 0 x.request with
    | none => (x.outcome (.error .closed), (c, s))
    | some (.ready outcome, c) => (x.outcome outcome, (c, s))
    | some (.pending, started) =>
      let (served, s) := listener (started, s)
      match served.poll c.tickets.length with
      | some (⟨r, .ready outcome⟩, c) =>
        if h : r = x.request then (x.outcome (h ▸ outcome), (c, s))
        else (x.outcome (.error .dropped), (c, s))
      | _ => (x.outcome (.error .dropped), (served, s))

/-- A listener that serves all requests in the queue with the prover `env`. -/
def serving (env : Environment proving σ) (cs : Channel requesting × σ) : Channel requesting × σ :=
  (serve env (cs.1.queue.length + 1) cs).2

/-- A listener that drops the oldest request. -/
def discarding (cs : Channel requesting × σ) : Channel requesting × σ := (discard cs.1, cs.2)

end Worker

end ShieldedWallet
