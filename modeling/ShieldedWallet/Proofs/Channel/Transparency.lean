import Mathlib.Data.Nat.Find
import ShieldedWallet.Proofs.Channel.Serving
import ShieldedWallet.Proofs.Program.Action
import ShieldedWallet.Simulation.World

/-!
# A prover that is elsewhere

A client goes through its operations and asks the prover through a channel, while a worker serves
the channel. The two take steps in any order. Whatever the order is, the client gets the answers
that it would have got with the prover at hand, and everybody else is asked the same. If neither of
the two is left without steps for ever, then both get to their ends.
-/

namespace ShieldedWallet

/-! ## Runs that are under way -/

namespace Program

variable {I : Interface} {α σ : Type}

/-- On its way from `p` and `s₀` a run has made the exchanges `log`, and `rest` in the state `s` is
what is left of it. -/
structure Underway (env : Environment I σ) (p : Program I α) (s₀ : σ) (log : List (Exchange I))
    (rest : Program I α) (s : σ) : Prop where
  run_eq : rest.run env s = p.run env s₀
  trace_eq : log ++ rest.trace env s = p.trace env s₀

variable {env : Environment I σ} {p rest : Program I α} {s₀ s : σ} {log : List (Exchange I)}

theorem underway_start (env : Environment I σ) (p : Program I α) (s : σ) :
    p.Underway env s [] p s := ⟨rfl, rfl⟩

theorem Underway.ask {q : I.Query} {next : I.Answer q → Program I α}
    (h : p.Underway env s₀ log (.ask q next) s) :
    p.Underway env s₀ (log ++ [⟨q, (env q s).1⟩]) (next (env q s).1) (env q s).2 := by
  refine ⟨h.run_eq, ?_⟩
  rw [List.append_assoc]
  exact h.trace_eq

theorem Underway.log_prefix (h : p.Underway env s₀ log rest s) : log <+: p.trace env s₀ :=
  ⟨_, h.trace_eq⟩

end Program

/-! ## Operations of a client -/

/-- What the owner of wallets can have done. -/
inductive Errand where
  /-- To set up the wallet of a signing key. -/
  | create (settings : Settings) (signingKey : Hash256)
  | shield (w : Wallet) (amount : UInt256) (sender : Address)
  | withdraw (w : Wallet) (amount fee : UInt256) (destination : Address)
  | withdrawAlone (w : Wallet) (amount : UInt256) (destination sender : Address)
  | sync (w : Wallet)
  | history (w : Wallet)
  | account (w : Wallet)

namespace Errand

/-- What an errand ends with. -/
@[reducible]
def Result : Errand → Type
  | .create _ _ => Except Failure Wallet
  | .shield _ _ _ | .withdraw _ _ _ _ | .withdrawAlone _ _ _ _ => Except Failure Hash256
  | .sync _ => Except Failure Nat
  | .history _ => List Transaction × Option Failure
  | .account _ => Except Failure Account

def program : (e : Errand) → Program surroundings e.Result
  | .create settings signingKey => (Wallet.ofKey settings signingKey).run
  | .shield w amount sender => (w.shield amount sender).run
  | .withdraw w amount fee destination => (w.withdraw amount fee destination).run
  | .withdrawAlone w amount destination sender => (w.withdrawAlone amount destination sender).run
  | .sync w => w.sync.run
  | .history w => w.history
  | .account w => w.account.run

end Errand

/-- Errands one after another, each of which may depend on what has become of the earlier ones. -/
abbrev Session (α : Type) := Program ⟨Errand, Errand.Result⟩ α

/-- What a session asks. -/
def Session.program {α : Type} : Session α → Program surroundings α
  | .done a => .done a
  | .ask e next => e.program.bind fun r => Session.program (next r)

/-! ## The prover and the others -/

section Others

variable {σ π : Type} {prover : Environment proving π} {others : Environment surroundings σ}

/-- Surroundings with the prover `prover`, where all other questions are answered by `others`. -/
def withProver (prover : Environment proving π) (others : Environment surroundings σ) :
    Environment surroundings (σ × π)
  | .prover q, (s, t) => ((prover q t).1, s, (prover q t).2)
  | q, (s, t) => ((others q s).1, (others q s).2, t)

theorem Query.prover_or_other (q : Query) : (∃ p, q = .prover p) ∨ ∀ p, q ≠ .prover p := by
  cases q with
  | prover p => exact .inl ⟨p, rfl⟩
  | _ => exact .inr nofun

theorem withProver_other {q : Query} (hq : ∀ p, q ≠ .prover p) (s : σ) (t : π) :
    withProver prover others q (s, t) = ((others q s).1, (others q s).2, t) := by
  cases q with
  | prover p => exact absurd rfl (hq p)
  | _ => rfl

/-- The exchange with the prover, if it is one. -/
def Exchange.proving? : Exchange surroundings → Option (Exchange proving)
  | ⟨.prover q, a⟩ => some ⟨q, a⟩
  | _ => none

/-- The calls of the prover. -/
def Trace.calls (t : Trace) : List (Exchange proving) := t.filterMap Exchange.proving?

/-- The calls of the prover as they go through a channel. -/
def Trace.posted (t : Trace) : List (Exchange Worker.requesting) := t.calls.map Worker.posted

theorem Trace.calls_snoc_other {log : Trace} {q : Query} (hq : ∀ p, q ≠ .prover p) (a : q.Answer) :
    Trace.calls (log ++ [⟨q, a⟩]) = Trace.calls log := by
  have hother : Exchange.proving? ⟨q, a⟩ = none := by
    cases q with
    | prover p => exact absurd rfl (hq p)
    | _ => rfl
  simp [Trace.calls, hother]

theorem Trace.calls_snoc_prover {log : Trace} {q : ProverQuery} (a : proving.Answer q) :
    Trace.calls (log ++ [⟨.prover q, a⟩]) = Trace.calls log ++ [⟨q, a⟩] := by
  simp [Trace.calls, Exchange.proving?]

theorem Trace.posted_snoc_prover {log : Trace} {q : ProverQuery} (a : proving.Answer q) :
    Trace.posted (log ++ [⟨.prover q, a⟩]) = Trace.posted log ++ [Worker.posted ⟨q, a⟩] := by
  unfold Trace.posted
  rw [Trace.calls_snoc_prover, List.map_append]
  rfl

end Others

/-! ## A channel with one request at a time -/

namespace Channel

variable {I : Interface} (xs : List (Exchange I)) (q : I.Query)

/-- A request that is finished. -/
def settled (x : Exchange I) : Ticket I := ⟨x.query, .answered x.answer, false⟩

/-- The requests `xs` are finished, and there is no other one. -/
def quiet (alive : Bool) : Channel I := ⟨⟨[alive], [], true⟩, xs.map settled⟩

/-- After the requests `xs` the request `q` has been sent, which is not finished. -/
def asking (slot : Slot (I.Answer q)) (queue : List Nat) : Channel I :=
  ⟨⟨[true], queue, true⟩, xs.map settled ++ [⟨q, slot, true⟩]⟩

variable (slot : Slot (I.Answer q)) (queue : List Nat)

theorem modify_concat {α : Type} (l : List α) (a : α) (f : α → α) :
    (l ++ [a]).modify l.length f = l ++ [f a] := by
  induction l with
  | nil => rfl
  | cons b l ih => simp [ih]

theorem length_quiet (alive : Bool) : (quiet xs alive).tickets.length = xs.length :=
  List.length_map _

theorem getElem?_asking :
    (asking xs q slot queue).tickets[xs.length]? = some ⟨q, slot, true⟩ := by
  simp [asking]

theorem modify_asking (f : Ticket I → Ticket I) : (asking xs q slot queue).modify xs.length f =
    ⟨⟨[true], queue, true⟩, xs.map settled ++ [f ⟨q, slot, true⟩]⟩ := by
  have hmodify := modify_concat (xs.map settled) ⟨q, slot, true⟩ f
  rw [List.length_map] at hmodify
  exact congrArg (Channel.mk _) hmodify

theorem start_quiet :
    (quiet xs true).start 0 q = some (.pending, asking xs q .unused [xs.length]) := by
  rw [start_of_listening rfl rfl, length_quiet]
  rfl

theorem next_quiet (alive : Bool) :
    (quiet xs alive).next = (if alive then .pending else .ended, quiet xs alive) := by
  have hr : (quiet xs alive).hasRequesters = alive := by
    simp [hasRequesters, requesters, isLent, quiet, settled]
  rw [next_of_nil rfl, hr]

theorem next_asking : (asking xs q .unused [xs.length]).next =
    (.request xs.length q, asking xs q .unused []) := by
  rw [next_of_cons rfl (getElem?_asking ..)]
  rfl

theorem next_asking_nil : (asking xs q slot []).next = (.pending, asking xs q slot []) :=
  next_of_nil rfl

theorem respond_asking (f : (q : I.Query) → I.Answer q) :
    (asking xs q .unused []).respond xs.length f =
      some (true, asking xs q (.answered (f q)) []) := by
  have hresponder : (asking xs q .unused []).responder? xs.length = some ⟨q, .unused, true⟩ :=
    responder?_eq_some_iff.2 ⟨getElem?_asking .., rfl, List.not_mem_nil⟩
  rw [respond_of_responder? hresponder, modify_asking]
  rfl

theorem poll_asking_unused : (asking xs q .unused queue).poll xs.length =
    some (⟨q, .pending⟩, asking xs q .unused queue) :=
  poll_of_waiting (getElem?_asking ..) rfl

theorem poll_asking_answered (a : I.Answer q) : (asking xs q (.answered a) []).poll xs.length =
    some (⟨q, .ready (.ok a)⟩, quiet (xs ++ [⟨q, a⟩]) true) := by
  have hquiet : (asking xs q (.answered a) []).abandon xs.length = quiet (xs ++ [⟨q, a⟩]) true := by
    unfold abandon quiet
    rw [modify_asking, List.map_append]
    rfl
  rw [poll_of_waiting (getElem?_asking ..) rfl, ← hquiet]
  rfl

end Channel

/-! ## A worker at such a channel -/

namespace Worker

variable {π : Type} {prover : Environment proving π} {t : π} {xs : List (Exchange requesting)}
  {ys : List (Exchange proving)} {q : ProverQuery} {r : Request}
  {slot : Slot (requesting.Answer r)}

theorem reply_asking (result : requesting.Answer r) :
    reply (.asking xs r .unused []) xs.length r result = .asking xs r (.answered result) [] := by
  have hrespond := Channel.respond_asking xs (I := requesting) r
    fun r' => if h : r = r' then h ▸ result else .error (.channel .dropped)
  unfold reply
  simp only [hrespond, dif_pos]

namespace Desk

theorem turn_quiet (alive : Bool) : turn prover ⟨.quiet xs alive, .idle, t, ys⟩ =
    ⟨.quiet xs alive, if alive then .idle else .ended, t, ys⟩ := by
  unfold turn
  simp only [Channel.next_quiet]
  cases alive <;> rfl

theorem turn_queued : turn prover ⟨.asking xs r .unused [xs.length], .idle, t, ys⟩ =
    ⟨.asking xs r .unused [], .busy xs.length r, t, ys⟩ := by
  have hnext := Channel.next_asking xs (I := requesting) r
  unfold turn
  simp only [hnext]

theorem turn_taken : turn prover
    ⟨.asking xs (Client.call q).request .unused [], .busy xs.length (Client.call q).request, t, ys⟩ =
      ⟨.asking xs (Client.call q).request (.answered (response q (prover q t).1)) [], .idle,
        (prover q t).2, ys ++ [⟨q, (prover q t).1⟩]⟩ := by
  unfold turn
  dsimp only
  rw [run_handle, trace_handle, reply_asking]

theorem turn_answered : turn prover ⟨.asking xs r slot [], .idle, t, ys⟩ =
    ⟨.asking xs r slot [], .idle, t, ys⟩ := by
  have hnext := Channel.next_asking_nil xs (I := requesting) r slot
  unfold turn
  simp only [hnext]

end Desk

/-- A worker that is run for the question answers it as the prover does. -/
theorem ask_serving (xs : List (Exchange requesting)) (q : ProverQuery) (t : π) :
    ask (serving prover) q (.quiet xs true, t) =
      ((prover q t).1, .quiet (xs ++ [posted ⟨q, (prover q t).1⟩]) true, (prover q t).2) := by
  have hstart := Channel.start_quiet xs (I := requesting) (Client.call q).request
  have hnext := Channel.next_asking xs (I := requesting) (Client.call q).request
  have hidle := Channel.next_asking_nil xs (I := requesting) (Client.call q).request
    (.answered (response q (prover q t).1))
  have hpoll := Channel.poll_asking_answered xs (I := requesting) (Client.call q).request
    (response q (prover q t).1)
  have hserving : serving prover (.asking xs (Client.call q).request .unused [xs.length], t) =
      (.asking xs (Client.call q).request (.answered (response q (prover q t).1)) [],
        (prover q t).2) := by
    show (serve prover 2 _).2 = _
    unfold serve
    simp only [hnext]
    rw [run_handle, reply_asking]
    unfold serve
    simp only [hidle]
  unfold ask
  simp only [hstart, hserving, Channel.length_quiet, hpoll, dite_true]
  exact Prod.ext (outcome_response q (prover q t).1) rfl

end Worker

/-! ## Two parties -/

/-- Who takes a step. -/
inductive Party where
  | client
  | worker
deriving DecidableEq

/-- Where a client is. -/
inductive Seat (α : Type) where
  /-- `rest` is what it has still to do. -/
  | active (rest : Program surroundings α)
  /-- It waits for the answer to its request, and will then go on with `next`. -/
  | waiting (number : Nat) (q : ProverQuery) (next : proving.Answer q → Program surroundings α)
  /-- It has ended and dropped its requester. -/
  | left (a : α)

/-- A client and a worker. -/
structure Service (α σ π : Type) where
  seat : Seat α
  desk : Worker.Desk π
  /-- Everybody but the prover. -/
  others : σ
  /-- What the client has asked and got for an answer. -/
  log : Trace

/-- What comes of a program. -/
structure Outcome (α σ π : Type) where
  result : α
  trace : Trace
  others : σ
  prover : π
  /-- What the prover was asked and what it answered. -/
  calls : List (Exchange proving)

section Service

variable {α σ π : Type} (prover : Environment proving π) (others : Environment surroundings σ)

/-- What comes of a program with the prover at hand. -/
def Program.atHand (p : Program surroundings α) (s : σ) (t : π) : Outcome α σ π where
  result := (p.run (withProver prover others) (s, t)).1
  trace := p.trace (withProver prover others) (s, t)
  others := (p.run (withProver prover others) (s, t)).2.1
  prover := (p.run (withProver prover others) (s, t)).2.2
  calls := Trace.calls (p.trace (withProver prover others) (s, t))

namespace Service

def new (p : Program surroundings α) (s : σ) (t : π) : Service α σ π := ⟨.active p, .new t, s, []⟩

/-- What has come of the program of the client, once it has ended. -/
def outcome? (w : Service α σ π) : Option (Outcome α σ π) :=
  match w.seat with
  | .left a => some ⟨a, w.log, w.others, w.desk.prover, w.desk.calls⟩
  | _ => none

def setChannel (w : Service α σ π) (c : Channel Worker.requesting) : Service α σ π :=
  { w with desk := { w.desk with channel := c } }

/-- The client goes on from the answer `a`. -/
def resume (w : Service α σ π) (q : ProverQuery)
    (next : proving.Answer q → Program surroundings α) (a : proving.Answer q) : Service α σ π :=
  { w with seat := .active (next a), log := w.log ++ [⟨.prover q, a⟩] }

/-- The client asks its next question, asks for the outcome of its request, or leaves. -/
def clientTurn (w : Service α σ π) : Service α σ π :=
  match w.seat with
  | .active (.done a) =>
    { w.setChannel (w.desk.channel.dropRequester 0) with seat := .left a }
  | .active (.ask (.prover q) next) =>
    let x := Worker.Client.call q
    match w.desk.channel.start 0 x.request with
    | none => w.resume q next (x.outcome (.error .closed))
    | some (.ready outcome, c) => (w.setChannel c).resume q next (x.outcome outcome)
    | some (.pending, c) =>
      { w.setChannel c with seat := .waiting w.desk.channel.tickets.length q next }
  | .active (.ask q next) =>
    { w with
      seat := .active (next (others q w.others).1)
      others := (others q w.others).2
      log := w.log ++ [⟨q, (others q w.others).1⟩] }
  | .waiting n q next =>
    let x := Worker.Client.call q
    match w.desk.channel.poll n with
    | some (⟨r, .ready outcome⟩, c) =>
      if h : r = x.request then (w.setChannel c).resume q next (x.outcome (h ▸ outcome))
      else (w.setChannel c).resume q next (x.outcome (.error .dropped))
    | some (⟨_, .pending⟩, c) => w.setChannel c
    | none => w
  | .left _ => w

def turn (w : Service α σ π) : Party → Service α σ π
  | .client => w.clientTurn others
  | .worker => { w with desk := w.desk.turn prover }

/-- The service after `n` steps, each taken by the party that `order` says. -/
def after (order : Nat → Party) (w : Service α σ π) : Nat → Service α σ π
  | 0 => w
  | n + 1 => (after order w n).turn prover others (order n)

/-- Where the two parties can stand while the program `p` runs. The number falls with each step in
which a party gets further. -/
inductive Stands (p : Program surroundings α) (s₀ : σ) (t₀ : π) : Nat → Service α σ π → Prop
  | active {log : Trace} {rest : Program surroundings α} {s : σ} {t : π}
      (h : p.Underway (withProver prover others) (s₀, t₀) log rest (s, t)) :
      Stands p s₀ t₀ (4 * (rest.trace (withProver prover others) (s, t)).length + 2)
        ⟨.active rest, ⟨.quiet log.posted true, .idle, t, log.calls⟩, s, log⟩
  /-- The request of the client is in the queue. -/
  | queued {log : Trace} {q : ProverQuery} {next : proving.Answer q → Program surroundings α}
      {s : σ} {t : π}
      (h : p.Underway (withProver prover others) (s₀, t₀) log (.ask (.prover q) next) (s, t)) :
      Stands p s₀ t₀
        (4 * (Program.trace (withProver prover others) (.ask (.prover q) next) (s, t)).length + 1)
        ⟨.waiting log.posted.length q next,
          ⟨.asking log.posted (Worker.Client.call q).request .unused
            [log.posted.length], .idle, t, log.calls⟩, s, log⟩
  /-- The worker has taken the request. -/
  | busy {log : Trace} {q : ProverQuery} {next : proving.Answer q → Program surroundings α}
      {s : σ} {t : π}
      (h : p.Underway (withProver prover others) (s₀, t₀) log (.ask (.prover q) next) (s, t)) :
      Stands p s₀ t₀
        (4 * (Program.trace (withProver prover others) (.ask (.prover q) next) (s, t)).length)
        ⟨.waiting log.posted.length q next,
          ⟨.asking log.posted (Worker.Client.call q).request .unused [],
            .busy log.posted.length (Worker.Client.call q).request, t, log.calls⟩, s, log⟩
  /-- The request has been answered, which the client does not know yet. -/
  | answered {log : Trace} {q : ProverQuery} {next : proving.Answer q → Program surroundings α}
      {a : proving.Answer q} {s : σ} {t : π}
      (h : p.Underway (withProver prover others) (s₀, t₀) (log ++ [⟨.prover q, a⟩]) (next a)
        (s, t)) :
      Stands p s₀ t₀ (4 * ((next a).trace (withProver prover others) (s, t)).length + 3)
        ⟨.waiting log.posted.length q next,
          ⟨.asking log.posted (Worker.Client.call q).request
            (.answered (Worker.response q a)) [], .idle, t, log.calls ++ [⟨q, a⟩]⟩, s, log⟩
  | left {log : Trace} {a : α} {s : σ} {t : π}
      (h : p.Underway (withProver prover others) (s₀, t₀) log (.done a) (s, t)) :
      Stands p s₀ t₀ 1
        ⟨.left a, ⟨.quiet log.posted false, .idle, t, log.calls⟩, s, log⟩
  | ended {log : Trace} {a : α} {s : σ} {t : π}
      (h : p.Underway (withProver prover others) (s₀, t₀) log (.done a) (s, t)) :
      Stands p s₀ t₀ 0
        ⟨.left a, ⟨.quiet log.posted false, .ended, t, log.calls⟩, s, log⟩

variable {prover others}

/-! ### Steps of the client -/

section Client

variable {desk : Worker.Desk π} {s : σ} {log : Trace} {a : α}
  {xs : List (Exchange Worker.requesting)} {q : ProverQuery} {next : proving.Answer q → Program surroundings α}

theorem clientTurn_done (hc : desk.channel = .quiet xs true) :
    clientTurn others ⟨.active (.done a), desk, s, log⟩ =
      ⟨.left a, { desk with channel := .quiet xs false }, s, log⟩ := by
  unfold clientTurn setChannel
  simp only [hc]
  rfl

theorem clientTurn_other {q : Query} {next : q.Answer → Program surroundings α}
    (hq : ∀ p, q ≠ .prover p) :
    clientTurn others ⟨.active (.ask q next), desk, s, log⟩ =
      ⟨.active (next (others q s).1), desk, (others q s).2, log ++ [⟨q, (others q s).1⟩]⟩ := by
  cases q with
  | prover p => exact absurd rfl (hq p)
  | _ => rfl

theorem clientTurn_prover (hc : desk.channel = .quiet xs true) :
    clientTurn others ⟨.active (.ask (.prover q) next), desk, s, log⟩ =
      ⟨.waiting xs.length q next, { desk with
        channel := .asking xs (Worker.Client.call q).request .unused [xs.length] }, s, log⟩ := by
  unfold clientTurn setChannel
  simp only [hc, Channel.start_quiet, Channel.length_quiet]

theorem clientTurn_unused {queue : List Nat}
    (hc : desk.channel = .asking xs (Worker.Client.call q).request .unused queue) :
    clientTurn others ⟨.waiting xs.length q next, desk, s, log⟩ =
      ⟨.waiting xs.length q next, desk, s, log⟩ := by
  have hpoll := Channel.poll_asking_unused xs (Worker.Client.call q).request queue
  rw [← hc] at hpoll
  unfold clientTurn setChannel
  simp only [hpoll]

theorem clientTurn_answered {a : proving.Answer q} (hc : desk.channel =
      .asking xs (Worker.Client.call q).request (.answered (Worker.response q a)) []) :
    clientTurn others ⟨.waiting xs.length q next, desk, s, log⟩ =
      ⟨.active (next a), { desk with channel := .quiet (xs ++ [Worker.posted ⟨q, a⟩]) true }, s,
        log ++ [⟨.prover q, a⟩]⟩ := by
  have hpoll := Channel.poll_asking_answered xs (Worker.Client.call q).request
    (Worker.response q a)
  rw [← hc] at hpoll
  have houtcome := Worker.outcome_response q a
  unfold clientTurn setChannel resume
  simp only [hpoll, dite_true]
  rw [houtcome]
  rfl

end Client

/-! ### All steps -/

variable {p : Program surroundings α} {s₀ : σ} {t₀ : π} {m : Nat} {w : Service α σ π}

variable (prover others) in
theorem stands_new (p : Program surroundings α) (s : σ) (t : π) :
    ∃ m, Stands prover others p s t m (.new p s t) :=
  ⟨_, .active (Program.underway_start _ p (s, t))⟩

variable (prover others p s₀ t₀ m w) in
/-- The party `x` gets further, and the other one waits for it. -/
def Moves (x : Party) : Prop :=
  (∃ m' < m, Stands prover others p s₀ t₀ m' (w.turn prover others x)) ∧
    ∀ y, y ≠ x → w.turn prover others y = w

theorem moves_client {v : Service α σ π} {m' : Nat} (hv : w.clientTurn others = v)
    (hs : Stands prover others p s₀ t₀ m' v) (hm : m' < m) (hw : w.desk.turn prover = w.desk) :
    Moves prover others p s₀ t₀ m w .client := by
  refine ⟨⟨m', hm, ?_⟩, fun y hy => ?_⟩
  · show Stands prover others p s₀ t₀ m' (w.clientTurn others)
    exact hv.symm ▸ hs
  cases y with
  | client => exact absurd rfl hy
  | worker => exact congrArg (fun desk => { w with desk := desk }) hw

theorem moves_worker {desk : Worker.Desk π} {m' : Nat} (hv : w.desk.turn prover = desk)
    (hs : Stands prover others p s₀ t₀ m' { w with desk := desk }) (hm : m' < m)
    (hc : w.clientTurn others = w) : Moves prover others p s₀ t₀ m w .worker := by
  refine ⟨⟨m', hm, ?_⟩, fun y hy => ?_⟩
  · show Stands prover others p s₀ t₀ m' { w with desk := w.desk.turn prover }
    exact hv.symm ▸ hs
  · cases y with
    | client => exact hc
    | worker => exact absurd rfl hy

/-- Until both parties have ended, one of them gets further. -/
theorem Stands.moves (h : Stands prover others p s₀ t₀ m w) (hm : m ≠ 0) :
    ∃ x, Moves prover others p s₀ t₀ m w x := by
  cases h with
  | @active log rest s t h =>
    refine ⟨.client, ?_⟩
    cases rest with
    | done a =>
      exact moves_client (clientTurn_done rfl) (.left h) (by simp) (Worker.Desk.turn_quiet true)
    | ask q next =>
      rcases Query.prover_or_other q with ⟨q, rfl⟩ | hq
      · exact moves_client (clientTurn_prover rfl) (.queued h) (Nat.lt_succ_self _)
          (Worker.Desk.turn_quiet true)
      · have hanswer : withProver prover others q (s, t) = _ := withProver_other hq s t
        have hask := h.ask
        rw [hanswer] at hask
        have hs := Stands.active hask
        unfold Trace.posted at hs
        rw [Trace.calls_snoc_other hq] at hs
        refine moves_client (clientTurn_other hq) hs ?_ (Worker.Desk.turn_quiet true)
        simp only [Program.trace, hanswer, List.length_cons]
        omega
  | queued h =>
    exact ⟨.worker, moves_worker Worker.Desk.turn_queued (.busy h) (Nat.lt_succ_self _)
      (clientTurn_unused rfl)⟩
  | busy h =>
    exact ⟨.worker, moves_worker Worker.Desk.turn_taken (.answered h.ask) (Nat.lt_succ_self _)
      (clientTurn_unused rfl)⟩
  | answered h =>
    have hs := Stands.active h
    rw [Trace.posted_snoc_prover, Trace.calls_snoc_prover] at hs
    exact ⟨.client, moves_client (clientTurn_answered rfl) hs (Nat.lt_succ_self _)
      Worker.Desk.turn_answered⟩
  | left h =>
    exact ⟨.worker, moves_worker (Worker.Desk.turn_quiet false) (.ended h) (Nat.lt_succ_self 0) rfl⟩
  | ended h => exact absurd rfl hm

theorem Stands.turn_of_zero (h : Stands prover others p s₀ t₀ 0 w) (x : Party) :
    w.turn prover others x = w := by
  generalize hm : 0 = m at h
  cases h with
  | ended h => cases x <;> rfl
  | _ => simp [Program.trace] at hm

theorem Stands.turn (h : Stands prover others p s₀ t₀ m w) (x : Party) :
    ∃ m', Stands prover others p s₀ t₀ m' (w.turn prover others x) := by
  by_cases hm : m = 0
  · subst hm
    exact ⟨0, (h.turn_of_zero x).symm ▸ h⟩
  · obtain ⟨y, ⟨m', -, hy⟩, hothers⟩ := h.moves hm
    by_cases hx : x = y
    · exact ⟨m', hx ▸ hy⟩
    · exact ⟨m, (hothers x hx).symm ▸ h⟩

theorem Stands.after (h : Stands prover others p s₀ t₀ m w) (order : Nat → Party) (n : Nat) :
    ∃ m', Stands prover others p s₀ t₀ m' (w.after prover others order n) := by
  induction n with
  | zero => exact ⟨m, h⟩
  | succ n ih =>
    obtain ⟨m', hm'⟩ := ih
    exact hm'.turn (order n)

/-! ### What has come of it -/

/-- What the client has seen, and what the prover was asked, is the beginning of what there would be
with the prover at hand. -/
theorem Stands.log_prefix (h : Stands prover others p s₀ t₀ m w) :
    w.log <+: (p.atHand prover others s₀ t₀).trace ∧
      w.desk.calls <+: (p.atHand prover others s₀ t₀).calls := by
  cases h with
  | active h | queued h | busy h | left h | ended h =>
    exact ⟨h.log_prefix, h.log_prefix.filterMap _⟩
  | answered h =>
    have hlog := h.log_prefix
    have hcalls := hlog.filterMap Exchange.proving?
    refine ⟨(List.prefix_append _ _).trans hlog, ?_⟩
    rw [← Trace.calls_snoc_prover]
    exact hcalls

theorem atHand_of_done {log : Trace} {a : α} {s : σ} {t : π}
    (h : p.Underway (withProver prover others) (s₀, t₀) log (.done a) (s, t)) :
    p.atHand prover others s₀ t₀ = ⟨a, log, s, t, Trace.calls log⟩ := by
  have hrun : (a, s, t) = p.run (withProver prover others) (s₀, t₀) := h.run_eq
  have htrace : log ++ [] = p.trace (withProver prover others) (s₀, t₀) := h.trace_eq
  rw [List.append_nil] at htrace
  unfold Program.atHand
  rw [← hrun, ← htrace]

theorem Stands.outcome (h : Stands prover others p s₀ t₀ m w) {o : Outcome α σ π}
    (ho : w.outcome? = some o) : o = p.atHand prover others s₀ t₀ := by
  cases h with
  | left h | ended h =>
    rw [atHand_of_done h]
    exact (Option.some.inj ho).symm
  | _ => cases ho

theorem Stands.ended_of_zero (h : Stands prover others p s₀ t₀ 0 w) :
    w.outcome? = some (p.atHand prover others s₀ t₀) ∧ w.desk.phase = .ended := by
  generalize hm : 0 = m at h
  cases h with
  | ended h => exact ⟨by rw [atHand_of_done h]; rfl, rfl⟩
  | _ => simp [Program.trace] at hm

/-- Each party takes a step after any number of steps. -/
def Fair (order : Nat → Party) : Prop := ∀ x n, ∃ k, n ≤ k ∧ order k = x

/-- Whoever can get further does so at its next step. -/
theorem Moves.exists_lt {order : Nat → Party} (hfair : Fair order) {n : Nat} {x : Party}
    (h : Moves prover others p s₀ t₀ m (w.after prover others order n) x) :
    ∃ k, ∃ m' < m, Stands prover others p s₀ t₀ m' (w.after prover others order k) := by
  obtain ⟨⟨m', hlt, hx⟩, hothers⟩ := h
  have hex := hfair x n
  obtain ⟨hnk, hk⟩ := Nat.find_spec hex
  -- Until then the service stays as it is.
  have hsame : ∀ j, n ≤ j → j ≤ Nat.find hex →
      w.after prover others order j = w.after prover others order n := by
    intro j hj
    induction j, hj using Nat.le_induction with
    | base => exact fun _ => rfl
    | succ j hj ih =>
      intro hle
      have hne : order j ≠ x := fun he => Nat.find_min hex (Nat.lt_of_succ_le hle) ⟨hj, he⟩
      show (w.after prover others order j).turn prover others (order j) = _
      rw [ih (by omega)]
      exact hothers _ hne
  refine ⟨Nat.find hex + 1, m', hlt, ?_⟩
  show Stands prover others p s₀ t₀ m'
    ((w.after prover others order (Nat.find hex)).turn prover others (order (Nat.find hex)))
  rw [hsame _ hnk (Nat.le_refl _), hk]
  exact hx

theorem Stands.exists_zero {order : Nat → Party} (hfair : Fair order) {n : Nat}
    (h : Stands prover others p s₀ t₀ m (w.after prover others order n)) :
    ∃ k, Stands prover others p s₀ t₀ 0 (w.after prover others order k) := by
  induction m using Nat.strongRecOn generalizing n with
  | ind m ih =>
    by_cases hm : m = 0
    · exact ⟨n, hm ▸ h⟩
    · obtain ⟨x, hx⟩ := h.moves hm
      obtain ⟨k, m', hlt, hk⟩ := hx.exists_lt hfair
      exact ih m' hlt hk

end Service

/-! ## A worker that is run for each question -/

/-- Surroundings with the prover behind a channel. -/
def withWorker (prover : Environment proving π) (others : Environment surroundings σ) :
    Environment surroundings (σ × Channel Worker.requesting × π) :=
  withProver (Worker.ask (Worker.serving prover)) others

theorem withWorker_answer (xs : List (Exchange Worker.requesting)) (q : Query) (s : σ) (t : π) :
    withWorker prover others q (s, .quiet xs true, t) =
      ((withProver prover others q (s, t)).1, (withProver prover others q (s, t)).2.1,
        .quiet (xs ++ Trace.posted [⟨q, (withProver prover others q (s, t)).1⟩]) true,
        (withProver prover others q (s, t)).2.2) := by
  rcases q.prover_or_other with ⟨q, rfl⟩ | hq
  · show (_, s, _) = _
    rw [Worker.ask_serving]
    rfl
  · have hposted : Trace.posted [⟨q, (others q s).1⟩] = [] :=
      congrArg (List.map Worker.posted) (@Trace.calls_snoc_other [] q hq _)
    unfold withWorker
    rw [withProver_other hq, withProver_other hq, hposted, List.append_nil]

/-- With a worker that is run for each question everything is as with the prover at hand. -/
theorem Program.run_withWorker (p : Program surroundings α)
    (xs : List (Exchange Worker.requesting)) (s : σ) (t : π) :
    let o := p.atHand prover others s t
    p.trace (withWorker prover others) (s, .quiet xs true, t) = o.trace ∧
      p.run (withWorker prover others) (s, .quiet xs true, t) =
        (o.result, o.others, .quiet (xs ++ o.calls.map Worker.posted) true, o.prover) := by
  induction p generalizing xs s t with
  | done a => simp [Program.atHand, Program.trace, Trace.calls]
  | ask q next ih =>
    intro o
    have hq := withWorker_answer prover others xs q s t
    obtain ⟨htrace, hrun⟩ := ih (withProver prover others q (s, t)).1
      (xs ++ Trace.posted [⟨q, (withProver prover others q (s, t)).1⟩])
      (withProver prover others q (s, t)).2.1 (withProver prover others q (s, t)).2.2
    constructor
    · unfold Program.trace
      rw [hq]
      exact congrArg _ htrace
    · rw [Program.run_ask, hq]
      refine hrun.trans ?_
      rw [List.append_assoc]
      unfold Program.atHand Trace.posted Trace.calls
      rw [← List.map_append, ← List.filterMap_append]
      rfl

end Service

/-! ## Everything together -/

/-- A session of a client whose prover is behind a worker comes to what it would come to with the
prover at hand: the same result, the same exchanges, the same state of everybody, and the same calls
of the prover. It does come to it unless the client or the worker is left without steps for ever,
and then the worker ends too. Whatever the requesters of a worker do, it ends just when all of them
are gone and what was sent has been put to the prover, in the order of sending. -/
theorem worker_transparent {α σ π : Type} (prover : Environment proving π)
    (others : Environment surroundings σ) (x : Session α) (s : σ) (t : π) :
    let o := x.program.atHand prover others s t
    -- Each request belongs to one thing that the client can be asked, and the worker does this.
    ((∀ q, Worker.Paired q) ∧ Function.Bijective fun q => (Worker.Client.call q).request) ∧
    -- The worker is run for each question.
    (x.program.trace (withWorker prover others) (s, .new, t) = o.trace ∧
      x.program.run (withWorker prover others) (s, .new, t) =
        (o.result, o.others, .quiet (o.calls.map Worker.posted) true, o.prover)) ∧
    -- The client and the worker take steps in any order.
    (∀ (order : Nat → Party) (n : Nat),
      let w := (Service.new x.program s t).after prover others order n
      w.log <+: o.trace ∧ w.desk.calls <+: o.calls ∧ ∀ o', w.outcome? = some o' → o' = o) ∧
    (∀ order : Nat → Party, Service.Fair order → ∃ n,
      let w := (Service.new x.program s t).after prover others order n
      w.outcome? = some o ∧ w.desk.phase = .ended) ∧
    -- The requesters do anything.
    ∀ w : Worker.Desk π, w.Reachable prover t → w.Diligent prover t := by
  intro o
  obtain ⟨m, hnew⟩ := Service.stands_new prover others x.program s t
  refine ⟨⟨Worker.paired, Worker.request_injective, Worker.request_surjective⟩,
    x.program.run_withWorker prover others [] s t, ?_, ?_, fun w h => h.diligent⟩
  · intro order n w
    obtain ⟨m', hw⟩ := hnew.after order n
    exact ⟨hw.log_prefix.1, hw.log_prefix.2, fun o' ho => hw.outcome ho⟩
  · intro order hfair
    obtain ⟨k, hk⟩ := Service.Stands.exists_zero hfair (n := 0) hnew
    exact ⟨k, hk.ended_of_zero⟩

/-- The client and the worker in turns. -/
def Party.inTurns (n : Nat) : Party := if n % 2 = 0 then .client else .worker

theorem Party.fair_inTurns : Service.Fair inTurns := by
  intro x n
  cases x with
  | client => exact ⟨2 * n, by omega, if_pos (by omega)⟩
  | worker => exact ⟨2 * n + 1, by omega, if_neg (by omega)⟩

/-- A wallet is set up and shields an amount. -/
def Session.shielding : Session (Except Failure Hash256) :=
  .ask (.create (.forChain 1) (Vector.replicate 32 7)) fun
    | .ok w => .ask (.shield w 100 Simulation.relayerAddress) .done
    | .error f => .done (.error f)

open Simulation in
/-- If the client and the worker take turns, the session comes to its end, as with the prover at
hand. -/
theorem worker_transparent_shielding : Service.Fair Party.inTurns ∧ ∃ n,
    let w := (Service.new Session.shielding.program (World.new .direct 1) {}).after prover
      (World.answer 0 0) Party.inTurns n
    w.outcome? = some (Session.shielding.program.atHand prover (World.answer 0 0)
      (World.new .direct 1) {}) ∧ w.desk.phase = .ended :=
  ⟨Party.fair_inTurns, (worker_transparent prover (World.answer 0 0) Session.shielding
    (World.new .direct 1) {}).2.2.2.1 _ Party.fair_inTurns⟩

end ShieldedWallet
