import Mathlib.Logic.Function.Basic
import ShieldedWallet.Channel.Worker
import ShieldedWallet.Proofs.Program.Trace

/-!
# Requests and what is done for them

Each thing that a prover can be asked has a request of its own, and each request is for one such thing.
What the worker has the prover do for a request is what the client was asked, and the result comes back
to the client as it is.
-/

namespace ShieldedWallet

namespace Program

variable {I : Interface} {α β : Type}

/-- The first question of a program. -/
def first? : Program I α → Option I.Query
  | .done _ => none
  | .ask q _ => some q

theorem first?_bind_done (p : Program I α) (f : α → β) :
    (p.bind fun a => .done (f a)).first? = p.first? := by
  cases p <;> rfl

end Program

namespace Worker

/-- The request for `q` and what is done for it belong together. -/
structure Paired (q : ProverQuery) : Prop where
  /-- The prover is asked what the client was asked, and the client answers what the prover has
  answered. -/
  handled : (handle (Client.call q).request).bind (fun result =>
    .done ((Client.call q).outcome (.ok result))) = Program.query (I := proving) q
  /-- What goes wrong with the channel is a failure of the prover. -/
  failed : ∀ cause, (Client.call q).outcome (.error cause) = .error (.channel cause)

theorem paired (q : ProverQuery) : Paired q := by
  cases q with
  | prove m w => cases m <;> exact ⟨rfl, fun _ => rfl⟩
  | verify m proof s => cases m <;> exact ⟨rfl, fun _ => rfl⟩
  | _ => exact ⟨rfl, fun _ => rfl⟩

theorem first?_handle (q : ProverQuery) : (handle (Client.call q).request).first? = some q := by
  have hfirst := congrArg Program.first? (paired q).handled
  rw [Program.first?_bind_done] at hfirst
  exact hfirst

/-- The client requests different things by different requests. -/
theorem request_injective : Function.Injective fun q => (Client.call q).request := by
  intro q q' h
  have hfirst := first?_handle q
  rw [show (Client.call q).request = (Client.call q').request from h, first?_handle] at hfirst
  exact (Option.some.inj hfirst).symm

/-- The client has a use for each request. -/
theorem request_surjective : Function.Surjective fun q => (Client.call q).request := by
  intro r
  cases r with
  | hash inputs => exact ⟨.hash inputs, rfl⟩
  | arity => exact ⟨.arity, rfl⟩
  | treeHeight => exact ⟨.treeHeight, rfl⟩
  | secrets id nonce => exact ⟨.secrets id nonce, rfl⟩
  | keyElement key => exact ⟨.keyElement key, rfl⟩
  | accountId key chainId => exact ⟨.accountId key chainId, rfl⟩
  | proveOpening w => exact ⟨.prove .opening w, rfl⟩
  | verifyOpening proof s => exact ⟨.verify .opening proof s, rfl⟩
  | proveDeposit w => exact ⟨.prove .deposit w, rfl⟩
  | verifyDeposit proof s => exact ⟨.verify .deposit proof s, rfl⟩
  | proveWithdrawal w => exact ⟨.prove .withdrawal w, rfl⟩
  | verifyWithdrawal proof s => exact ⟨.verify .withdrawal proof s, rfl⟩

/-! ## Results -/

/-- The responder of the request for `q` takes what `q` is answered with. -/
theorem answer_request (q : ProverQuery) :
    requesting.Answer (Client.call q).request = proving.Answer q := by
  cases q with
  | prove m w => cases m <;> rfl
  | verify m proof s => cases m <;> rfl
  | _ => rfl

theorem outcome_ok (q : ProverQuery) (result : requesting.Answer (Client.call q).request) :
    (Client.call q).outcome (.ok result) = cast (answer_request q) result := by
  cases q with
  | prove m w => cases m <;> rfl
  | verify m proof s => cases m <;> rfl
  | _ => rfl

/-- The response that stands for the answer `a` of the prover. -/
def response (q : ProverQuery) (a : proving.Answer q) :
    requesting.Answer (Client.call q).request := cast (answer_request q).symm a

/-- A call of the prover as it goes through the channel: the request for it, and the response. -/
def posted (x : Exchange proving) : Exchange requesting :=
  ⟨(Client.call x.query).request, response x.query x.answer⟩

/-- The client answers what the prover has answered. -/
theorem outcome_response (q : ProverQuery) (a : proving.Answer q) :
    (Client.call q).outcome (.ok (response q a)) = a := by
  rw [outcome_ok, response, cast_cast, cast_eq]

variable {σ : Type} (env : Environment proving σ) (s : σ) (q : ProverQuery)

/-- The worker responds with what the prover has answered. -/
theorem run_handle : (handle (Client.call q).request).run env s =
    (response q (env q s).1, (env q s).2) := by
  have hrun := congrArg (Program.run env · s) (paired q).handled
  dsimp only at hrun
  rw [Program.run_bind] at hrun
  obtain ⟨hanswer, hstate⟩ := Prod.mk.inj hrun
  refine Prod.ext ?_ hstate
  rw [← show _ = (env q s).1 from hanswer, outcome_ok, response, cast_cast, cast_eq]

/-- The worker has the prover do what the client was asked, and nothing else. -/
theorem trace_handle :
    (handle (Client.call q).request).trace env s = [⟨q, (env q s).1⟩] := by
  have htrace := congrArg (Program.trace env · s) (paired q).handled
  dsimp only at htrace
  rw [Program.trace_bind, show Program.trace env (.done _) _ = [] from rfl,
    List.append_nil] at htrace
  exact htrace

end Worker

end ShieldedWallet
