import Mathlib.Logic.Function.Iterate
import ShieldedWallet.Proofs.Channel.Operations
import ShieldedWallet.Proofs.Channel.Pairing

/-!
# Serving a channel

A worker takes the requests out of its channel one at a time, has the prover do what each of them is
for, and responds. Before each of its steps the requesters may have used the channel in any way. Still
the prover is asked for everything that is sent, once and in the order of sending, and the worker ends
just when no requester is left and everything has been passed to the prover.
-/

namespace ShieldedWallet

/-- Asked the questions of `xs` one after another in the state `s`, the party answers as `xs` says
and gets to the state `s'`. -/
inductive Environment.Answers {I : Interface} {σ : Type} (env : Environment I σ) (s : σ) :
    (xs : List (Exchange I)) → (s' : σ) → Prop
  | nil : Answers env s [] s
  | snoc {xs : List (Exchange I)} {s' : σ} (h : Answers env s xs s') (q : I.Query) :
      Answers env s (xs ++ [⟨q, (env q s').1⟩]) (env q s').2

namespace Channel

variable {I : Interface} {c c' : Channel I} {xs : List (Exchange I)} {taken queued : List I.Query}

/-- What the requesters of a channel can do. -/
inductive Use (c : Channel I) : Channel I → Prop where
  | clone {i n : Nat} {c' : Channel I} (h : c.clone i = some (n, c')) : Use c c'
  | drop (i : Nat) : Use c (c.dropRequester i)
  | start {i : Nat} {q : I.Query} {p : Poll (I.Answer q)} {c' : Channel I}
      (h : c.start i q = some (p, c')) : Use c c'
  | poll {n : Nat} {p : (q : I.Query) × Poll (I.Answer q)} {c' : Channel I}
      (h : c.poll n = some (p, c')) : Use c c'
  | abandon (n : Nat) : Use c (c.abandon n)

/-! ## Requests and responses -/

/-- All requests, in the order in which they were sent. -/
def sent (c : Channel I) : List I.Query := c.tickets.map (·.query)

/-- A request, and what has become of its responder. -/
abbrev Response (I : Interface) := (q : I.Query) × Slot (I.Answer q)

def Response.unused (q : I.Query) : Response I := ⟨q, .unused⟩

def Response.answered (x : Exchange I) : Response I := ⟨x.query, .answered x.answer⟩

def responses (c : Channel I) : List (Response I) := c.tickets.map fun t => ⟨t.query, t.slot⟩

/-- The requests in the order in which they were sent: those of `xs` have been answered, those in
`taken` have been taken out of the queue, and those in `queued` are in it. -/
structure Holds (c : Channel I) (xs : List (Exchange I)) (taken queued : List I.Query) : Prop where
  listening : c.listening = true
  responses_eq : c.responses = xs.map .answered ++ (taken ++ queued).map .unused
  queue_eq : c.queue = List.range' (xs.length + taken.length) queued.length

theorem holds_new : (new : Channel I).Holds [] [] [] := ⟨rfl, rfl, rfl⟩

theorem Holds.length (h : c.Holds xs taken queued) :
    c.tickets.length = xs.length + taken.length + queued.length := by
  have hlength : c.responses.length = c.tickets.length := List.length_map _
  rw [← hlength, h.responses_eq]
  simp
  omega

theorem Holds.sent_eq (h : c.Holds xs taken queued) :
    c.sent = xs.map (·.query) ++ (taken ++ queued) := by
  have hsent : c.sent = c.responses.map (·.1) := by
    unfold sent responses
    rw [List.map_map]
    rfl
  have hunused : (·.1) ∘ Response.unused = (id : I.Query → I.Query) := rfl
  rw [hsent, h.responses_eq, List.map_append, List.map_map, List.map_map, hunused, List.map_id]
  rfl

theorem Holds.ticket (h : c.Holds xs taken queued) {n : Nat} {q : I.Query}
    (hn : (taken ++ queued)[n]? = some q) :
    ∃ waiting, c.tickets[xs.length + n]? = some ⟨q, ⟨.unused, waiting⟩⟩ := by
  have hresponse : c.responses[xs.length + n]? = some (.unused q) := by
    rw [h.responses_eq, List.getElem?_append_right (by simp), List.length_map,
      Nat.add_sub_cancel_left, List.getElem?_map, hn]
    rfl
  rw [responses, List.getElem?_map, Option.map_eq_some_iff] at hresponse
  obtain ⟨⟨q', ⟨slot, waiting⟩⟩, ht, hq⟩ := hresponse
  obtain ⟨rfl, hslot⟩ := Sigma.mk.inj hq
  have hslot : slot = .unused := eq_of_heq hslot
  exact ⟨waiting, hslot ▸ ht⟩

theorem map_modify_of_eq {α β : Type} {f : α → α} {g : α → β} (h : ∀ a, g (f a) = g a)
    (l : List α) (i : Nat) : (l.modify i f).map g = l.map g := by
  refine List.ext_getElem? fun j => ?_
  rw [List.getElem?_map, List.getElem?_map, List.getElem?_modify]
  by_cases hij : i = j
  · cases l[j]? <;> simp [hij, h]
  · simp [hij]

theorem hasRequesters_modify {f : Ticket I → Ticket I} (hf : ∀ t, (f t).waiting = t.waiting)
    (n : Nat) : (c.modify n f).hasRequesters = c.hasRequesters := by
  have hwaiting := map_modify_of_eq hf c.tickets n
  have hany (l : List (Ticket I)) : l.any (·.waiting) = (l.map (·.waiting)).any id := by
    rw [List.any_map]
    rfl
  have hlent : (c.modify n f).isLent = c.isLent := by
    unfold isLent Channel.modify
    rw [hany, hany]
    exact congrArg (List.any · id) hwaiting
  exact congrArg (c.requesters.any id || ·) hlent

/-! ## Uses -/

theorem Holds.abandon (h : c.Holds xs taken queued) (n : Nat) :
    (c.abandon n).Holds xs taken queued :=
  have hresponses : (c.abandon n).responses = c.responses :=
    map_modify_of_eq (f := Ticket.leave) (fun _ => rfl) _ n
  ⟨h.listening, hresponses.trans h.responses_eq, h.queue_eq⟩

/-- A request is sent behind all others. -/
theorem Holds.start (h : c.Holds xs taken queued) {i : Nat} {q : I.Query} {p : Poll (I.Answer q)}
    (hs : c.start i q = some (p, c')) : c'.Holds xs taken (queued ++ [q]) := by
  rcases (start_cases hs).2 with ⟨-, -, rfl⟩ | ⟨hclosed, -⟩
  · refine ⟨h.listening, ?_, ?_⟩
    · have hresponses := h.responses_eq
      unfold responses at hresponses ⊢
      simp [push, setQueue, hresponses, Response.unused, Oneshot.new]
    · show c.queue ++ [c.tickets.length] = _
      rw [h.queue_eq, h.length, List.length_append, List.length_singleton, List.range'_1_concat]
  · rw [h.listening] at hclosed
    cases hclosed

/-- A use of the channel changes nothing about earlier requests. -/
theorem Use.holds (hu : c.Use c') (h : c.Holds xs taken queued) :
    ∃ queued', c'.Holds xs taken queued' := by
  cases hu with
  | clone hc =>
    obtain ⟨-, -, rfl⟩ := clone_eq_some hc
    exact ⟨queued, h.listening, h.responses_eq, h.queue_eq⟩
  | drop i => exact ⟨queued, h.listening, h.responses_eq, h.queue_eq⟩
  | start hs => exact ⟨_, h.start hs⟩
  | poll hp =>
    obtain ⟨-, -, -, -, ⟨-, rfl⟩ | ⟨-, rfl⟩⟩ := poll_eq_some hp
    · exact ⟨queued, h⟩
    · exact ⟨queued, h.abandon _⟩
  | abandon n => exact ⟨queued, h.abandon n⟩

theorem not_isAlive (h : c.hasRequesters = false) (i : Nat) : c.isAlive i = false := by
  have hdead : ∀ b ∈ c.requesters, b = false := by
    have hany := (Bool.or_eq_false_iff.1 h).1
    simpa using hany
  rw [← Bool.not_eq_true, isAlive_iff]
  intro hi
  cases hdead true (List.mem_of_getElem? hi)

theorem hasRequesters_abandon (h : c.hasRequesters = false) (n : Nat) :
    (c.abandon n).hasRequesters = false := by
  obtain ⟨halive, hwaiting⟩ := Bool.or_eq_false_iff.1 h
  refine Bool.or_eq_false_iff.2 ⟨halive, ?_⟩
  unfold isLent at hwaiting ⊢
  rw [List.any_eq_false] at hwaiting ⊢
  intro t ht
  obtain ⟨i, hi⟩ := List.mem_iff_getElem?.1 ht
  unfold abandon Channel.modify at hi
  rw [List.getElem?_modify] at hi
  obtain ⟨u, hu, rfl⟩ := Option.map_eq_some_iff.1 hi
  have hu := hwaiting u (List.mem_of_getElem? hu)
  by_cases hn : n = i
  · simp [hn]
  · simpa [hn] using hu

/-- Once no requester is left, the channel cannot be used for anything new. -/
theorem Use.no_requesters (hu : c.Use c') (h : c.hasRequesters = false) :
    c'.hasRequesters = false ∧ c'.queue = c.queue := by
  cases hu with
  | clone hc =>
    have halive := (clone_eq_some hc).1
    rw [not_isAlive h] at halive
    cases halive
  | drop i =>
    obtain ⟨halive, hwaiting⟩ := Bool.or_eq_false_iff.1 h
    refine ⟨Bool.or_eq_false_iff.2 ⟨?_, hwaiting⟩, rfl⟩
    rw [List.any_eq_false] at halive ⊢
    intro b hb
    rcases List.mem_or_eq_of_mem_set hb with hb | rfl
    · exact halive b hb
    · simp
  | start hs =>
    rw [start_of_not_isAlive (not_isAlive h _)] at hs
    cases hs
  | poll hp =>
    obtain ⟨-, -, -, -, ⟨-, rfl⟩ | ⟨-, rfl⟩⟩ := poll_eq_some hp
    · exact ⟨h, rfl⟩
    · exact ⟨hasRequesters_abandon h _, rfl⟩
  | abandon n => exact ⟨hasRequesters_abandon h n, rfl⟩

/-! ## The listener -/

theorem Holds.next_nil (h : c.Holds xs taken []) :
    c.next = (if c.hasRequesters then .pending else .ended, c) := next_of_nil h.queue_eq

/-- The oldest request in the queue is taken out. -/
theorem Holds.next_cons {q : I.Query} (h : c.Holds xs [] (q :: queued)) :
    ∃ c', c.next = (.request xs.length q, c') ∧ c'.Holds xs [q] queued ∧
      c'.hasRequesters = c.hasRequesters := by
  have hqueue : c.queue = xs.length :: List.range' (xs.length + 1) queued.length := by
    rw [h.queue_eq]
    rfl
  obtain ⟨waiting, ht⟩ := h.ticket (n := 0) (q := q) rfl
  rw [Nat.add_zero] at ht
  exact ⟨c.setQueue (List.range' (xs.length + 1) queued.length), next_of_cons hqueue ht,
    ⟨h.listening, h.responses_eq, rfl⟩, rfl⟩

/-- What has been taken out is answered through its own responder. -/
theorem Holds.respond {q : I.Query} (h : c.Holds xs [q] queued) (f : (q : I.Query) → I.Answer q) :
    ∃ b c', c.respond xs.length f = some (b, c') ∧ c'.Holds (xs ++ [⟨q, f q⟩]) [] queued ∧
      c'.hasRequesters = c.hasRequesters := by
  obtain ⟨waiting, ht⟩ := h.ticket (n := 0) (q := q) rfl
  rw [Nat.add_zero] at ht
  have hqueue : xs.length ∉ c.queue := by
    rw [h.queue_eq, List.mem_range'_1, List.length_singleton]
    omega
  have hresponder : c.responder? xs.length = some ⟨q, ⟨.unused, waiting⟩⟩ :=
    responder?_eq_some_iff.2 ⟨ht, rfl, hqueue⟩
  refine ⟨waiting, c.modify xs.length (.respond f), respond_of_responder? hresponder f,
    ⟨h.listening, ?_, ?_⟩, hasRequesters_modify (f := .respond f) (fun _ => rfl) _⟩
  · -- The tickets before and after the answered one stay as they are.
    obtain ⟨l₁, t, l₂, hl, hlength, hmodify⟩ :=
      List.exists_of_modify (.respond f) (List.getElem?_eq_some_iff.1 ht).1
    obtain rfl : t = ⟨q, ⟨.unused, waiting⟩⟩ := by
      rw [hl, ← hlength, List.getElem?_append_right (Nat.le_refl _)] at ht
      simpa using ht
    have hresponses := h.responses_eq
    unfold responses at hresponses
    rw [hl, List.map_append] at hresponses
    obtain ⟨h₁, h₂⟩ := List.append_inj hresponses (by simpa using hlength)
    show (c.tickets.modify xs.length (.respond f)).map _ = _
    rw [hmodify, List.map_append, h₁, List.map_cons, (List.cons.inj h₂).2, List.map_append,
      List.append_assoc]
    rfl
  · show c.queue = _
    rw [h.queue_eq]
    simp

end Channel

/-! ## The worker -/

/-- What a worker is doing. -/
inductive Worker.Phase where
  /-- It looks for the next request. -/
  | idle
  /-- It has taken a request. -/
  | busy (number : Nat) (r : Request)
  | ended

namespace Worker

/-- The request that is being handled. -/
def Phase.inHand : Phase → List Request
  | .busy _ r => [r]
  | _ => []

/-- Whether a worker goes on. -/
def Phase.status : Phase → Status
  | .ended => .ended
  | _ => .waiting

/-- A worker, its channel and its prover. -/
structure Desk (π : Type) where
  channel : Channel requesting
  phase : Phase
  prover : π
  /-- What the prover was asked and what it answered. -/
  calls : List (Exchange proving)

namespace Desk

variable {π : Type} {env : Environment proving π} {t : π} {w w' : Desk π}

def new (t : π) : Desk π := ⟨.new, .idle, t, []⟩

/-- A step of the worker: it takes a request, or has the prover do what the one it has taken is for,
and responds. -/
def turn (env : Environment proving π) (w : Desk π) : Desk π :=
  match w.phase with
  | .idle =>
    match w.channel.next with
    | (.request n r, c) => { w with channel := c, phase := .busy n r }
    | (.pending, c) => { w with channel := c }
    | (.ended, c) => { w with channel := c, phase := .ended }
  | .busy n r =>
    { channel := reply w.channel n r ((handle r).run env w.prover).1
      phase := .idle
      prover := ((handle r).run env w.prover).2
      calls := w.calls ++ (handle r).trace env w.prover }
  | .ended => w

/-- What can come about from a new channel when the requesters use it in any way. -/
inductive Reachable (env : Environment proving π) (t : π) : Desk π → Prop
  | new : Reachable env t (.new t)
  | use {w : Desk π} {c : Channel requesting} (h : Reachable env t w) (hu : w.channel.Use c) :
      Reachable env t { w with channel := c }
  | turn {w : Desk π} (h : Reachable env t w) : Reachable env t (w.turn env)

/-- What was sent first has been done by the prover, and the rest is in the queue, but for the request
in hand. -/
structure Sound (env : Environment proving π) (t : π) (w : Desk π) (queued : List Request) :
    Prop where
  answers : env.Answers t w.calls w.prover
  holds : w.channel.Holds (w.calls.map posted) w.phase.inHand queued
  number_eq : ∀ n r, w.phase = .busy n r → n = w.calls.length
  ended : w.phase = .ended → w.channel.hasRequesters = false ∧ queued = []

theorem sound_new : (new t).Sound env t [] :=
  ⟨.nil, Channel.holds_new, fun _ _ h => Phase.noConfusion h, fun h => Phase.noConfusion h⟩

variable {c c' : Channel requesting} {s : π} {xs : List (Exchange proving)} {n : Nat}
  {r : Request} {queued : List Request}

theorem Sound.use (h : w.Sound env t queued) (hu : w.channel.Use c) :
    ∃ queued', { w with channel := c }.Sound env t queued' := by
  by_cases hended : w.phase = .ended
  · obtain ⟨hr, rfl⟩ := h.ended hended
    obtain ⟨hr', hqueue⟩ := hu.no_requesters hr
    obtain ⟨queued', hholds⟩ := hu.holds h.holds
    have hnil : queued' = [] := by
      have hlength := congrArg List.length (hqueue.trans h.holds.queue_eq)
      rw [hholds.queue_eq] at hlength
      simpa using hlength
    exact ⟨queued', h.answers, hholds, h.number_eq, fun _ => ⟨hr', hnil⟩⟩
  · obtain ⟨queued', hholds⟩ := hu.holds h.holds
    exact ⟨queued', h.answers, hholds, h.number_eq, fun he => absurd he hended⟩

/-! ### One step -/

theorem Sound.turn_nil (h : Sound env t ⟨c, .idle, s, xs⟩ []) : turn env ⟨c, .idle, s, xs⟩ =
    ⟨c, if c.hasRequesters then .idle else .ended, s, xs⟩ := by
  have hnext : c.next = _ := h.holds.next_nil
  unfold turn
  simp only [hnext]
  cases c.hasRequesters <;> rfl

theorem Sound.turn_cons (h : Sound env t ⟨c, .idle, s, xs⟩ (r :: queued)) :
    ∃ c', c.next = (.request xs.length r, c') ∧
      turn env ⟨c, .idle, s, xs⟩ = ⟨c', .busy xs.length r, s, xs⟩ ∧
      Sound env t ⟨c', .busy xs.length r, s, xs⟩ queued ∧ c'.hasRequesters = c.hasRequesters := by
  obtain ⟨c', hnext, hholds, hr⟩ := Channel.Holds.next_cons h.holds
  rw [List.length_map] at hnext
  refine ⟨c', hnext, ?_, ⟨h.answers, hholds, ?_, fun he => Phase.noConfusion he⟩, hr⟩
  · unfold turn
    simp only [hnext]
  · intro n r' hp
    cases hp
    rfl

/-- The result for the request that was taken goes to its own responder. -/
theorem holds_reply {ys : List (Exchange requesting)} (h : c.Holds ys [r] queued)
    (result : requesting.Answer r) : ∃ c', reply c ys.length r result = c' ∧
      c'.Holds (ys ++ [⟨r, result⟩]) [] queued ∧ c'.hasRequesters = c.hasRequesters := by
  let f : (r' : Request) → requesting.Answer r' := fun r' =>
    if h : r = r' then h ▸ result else .error (.channel .dropped)
  have hf : f r = result := dif_pos rfl
  obtain ⟨heard, c', hrespond, hholds, hr⟩ := h.respond f
  rw [hf] at hholds
  refine ⟨c', ?_, hholds, hr⟩
  unfold reply
  simp only [show c.respond ys.length (fun r' => if h : r = r' then h ▸ result else
    .error (.channel .dropped)) = some (heard, c') from hrespond]

/-- The request in hand is for some question. The prover is asked this question, and the request is
answered as the prover answers. -/
theorem Sound.turn_busy (h : Sound env t ⟨c, .busy n r, s, xs⟩ queued) :
    ∃ q c', r = (Client.call q).request ∧ reply c n r ((handle r).run env s).1 = c' ∧
      turn env ⟨c, .busy n r, s, xs⟩ = ⟨c', .idle, (env q s).2, xs ++ [⟨q, (env q s).1⟩]⟩ ∧
      Sound env t ⟨c', .idle, (env q s).2, xs ++ [⟨q, (env q s).1⟩]⟩ queued ∧
      c'.hasRequesters = c.hasRequesters := by
  obtain rfl : n = xs.length := h.number_eq n r rfl
  obtain ⟨q, rfl⟩ := request_surjective r
  have hholds : c.Holds (xs.map posted) [(Client.call q).request] queued := h.holds
  obtain ⟨c', hreply, hholds', hr⟩ := holds_reply hholds (response q (env q s).1)
  rw [List.length_map] at hreply
  refine ⟨q, c', rfl, ?_, ?_, ⟨h.answers.snoc q, ?_, fun _ _ hp => Phase.noConfusion hp,
    fun he => Phase.noConfusion he⟩, hr⟩
  · dsimp only
    rw [run_handle]
    exact hreply
  · unfold turn
    dsimp only
    rw [run_handle, trace_handle, hreply]
  · rw [List.map_append]
    exact hholds'

theorem Sound.turn (h : w.Sound env t queued) : ∃ queued', (w.turn env).Sound env t queued' := by
  obtain ⟨c, phase, s, xs⟩ := w
  cases phase with
  | idle =>
    cases queued with
    | nil =>
      rw [h.turn_nil]
      cases hr : c.hasRequesters with
      | true => exact ⟨[], h⟩
      | false =>
        exact ⟨[], h.answers, h.holds, fun _ _ hp => Phase.noConfusion hp, fun _ => ⟨hr, rfl⟩⟩
    | cons r queued =>
      obtain ⟨c', -, hturn, h', -⟩ := h.turn_cons
      exact ⟨queued, hturn ▸ h'⟩
  | busy n r =>
    obtain ⟨q, c', -, -, hturn, h', -⟩ := h.turn_busy
    exact ⟨queued, hturn ▸ h'⟩
  | ended => exact ⟨queued, h⟩

theorem Reachable.sound (h : Reachable env t w) : ∃ queued, w.Sound env t queued := by
  induction h with
  | new => exact ⟨[], sound_new⟩
  | use _ hu ih =>
    obtain ⟨queued, h⟩ := ih
    exact h.use hu
  | turn _ ih =>
    obtain ⟨queued, h⟩ := ih
    exact h.turn

/-! ### The end -/

/-- The requests for what the prover was asked. -/
def passed (w : Desk π) : List Request := w.calls.map fun x => (Client.call x.query).request

/-- The next step of the worker is its last one just when no requester is left and everything that was
sent has been passed to the prover. -/
theorem Sound.turn_ended_iff (h : w.Sound env t queued) : (w.turn env).phase = .ended ↔
    w.channel.hasRequesters = false ∧ w.passed = w.channel.sent := by
  have hpassed : (w.calls.map posted).map (·.query) = w.passed := List.map_map ..
  have hsent : w.passed = w.channel.sent ↔ w.phase.inHand ++ queued = [] := by
    rw [h.holds.sent_eq, hpassed, List.self_eq_append_right]
  rw [hsent]
  obtain ⟨c, phase, s, xs⟩ := w
  cases phase with
  | idle =>
    cases queued with
    | nil =>
      rw [h.turn_nil]
      cases hr : c.hasRequesters <;> simp [Phase.inHand]
    | cons r queued =>
      obtain ⟨c', -, hturn, -, -⟩ := h.turn_cons
      rw [hturn]
      simp [Phase.inHand]
  | busy n r =>
    obtain ⟨q, c', -, -, hturn, -, -⟩ := h.turn_busy
    rw [hturn]
    simp [Phase.inHand]
  | ended =>
    obtain ⟨hr, rfl⟩ := h.ended rfl
    exact ⟨fun _ => ⟨hr, rfl⟩, fun _ => rfl⟩

theorem Sound.exists_ended_of_idle (h : Sound env t ⟨c, .idle, s, xs⟩ queued)
    (hr : c.hasRequesters = false) :
    ∃ k, ((Desk.turn env)^[k] ⟨c, .idle, s, xs⟩).phase = .ended := by
  induction queued generalizing c s xs with
  | nil => exact ⟨1, by rw [Function.iterate_one, h.turn_nil, hr]; rfl⟩
  | cons r queued ih =>
    obtain ⟨c₁, -, h₁, hs₁, hr₁⟩ := h.turn_cons
    obtain ⟨q, c₂, -, -, h₂, hs₂, hr₂⟩ := hs₁.turn_busy
    obtain ⟨k, hk⟩ := ih hs₂ ((hr₂.trans hr₁).trans hr)
    refine ⟨k + 1 + 1, ?_⟩
    rw [Function.iterate_succ_apply, Function.iterate_succ_apply, h₁, h₂]
    exact hk

/-- Without requesters the worker gets to its end. -/
theorem Sound.exists_ended (h : w.Sound env t queued) (hr : w.channel.hasRequesters = false) :
    ∃ k, ((Desk.turn env)^[k] w).phase = .ended := by
  obtain ⟨c, phase, s, xs⟩ := w
  cases phase with
  | idle => exact h.exists_ended_of_idle hr
  | busy n r =>
    obtain ⟨q, c', -, -, hturn, h', hr'⟩ := h.turn_busy
    obtain ⟨k, hk⟩ := h'.exists_ended_of_idle (hr'.trans hr)
    exact ⟨k + 1, by rw [Function.iterate_succ_apply, hturn]; exact hk⟩
  | ended => exact ⟨0, rfl⟩

/-- A worker that handles at most `k` requests without a pause takes `2 * k` steps. -/
theorem Sound.serve_eq (h : Sound env t ⟨c, .idle, s, xs⟩ queued) (k : Nat) :
    let v := (Desk.turn env)^[2 * k] ⟨c, .idle, s, xs⟩
    serve env k (c, s) = (v.phase.status, v.channel, v.prover) := by
  induction k generalizing c s xs queued with
  | zero => rfl
  | succ k ih =>
    intro v
    cases queued with
    | nil =>
      have hnext : c.next = _ := h.holds.next_nil
      have hv : v = ⟨c, if c.hasRequesters then .idle else .ended, s, xs⟩ := by
        have hturn := h.turn_nil
        show (Desk.turn env)^[2 * k + 1 + 1] _ = _
        rw [Function.iterate_succ_apply, hturn]
        refine Function.iterate_fixed ?_ _
        cases hr : c.hasRequesters with
        | true =>
          rw [hr] at hturn
          exact hturn
        | false => rfl
      rw [hv]
      unfold serve
      simp only [hnext]
      cases c.hasRequesters <;> rfl
    | cons r queued =>
      obtain ⟨c₁, hnext, h₁, hs₁, -⟩ := h.turn_cons
      obtain ⟨q, c₂, rfl, hreply, h₂, hs₂, -⟩ := hs₁.turn_busy
      have hv : v = (Desk.turn env)^[2 * k]
          ⟨c₂, .idle, (env q s).2, xs ++ [⟨q, (env q s).1⟩]⟩ := by
        show (Desk.turn env)^[2 * k + 1 + 1] _ = _
        rw [Function.iterate_succ_apply, Function.iterate_succ_apply, h₁, h₂]
      have hstate : ((handle (Client.call q).request).run env s).2 = (env q s).2 := by
        rw [run_handle]
      rw [hv]
      unfold serve
      simp only [hnext, hreply, hstate]
      exact ih hs₂

/-! ### Everything together -/

/-- The worker does what it is there for, so far and from now on. -/
structure Diligent (env : Environment proving π) (t : π) (w : Desk π) : Prop where
  /-- The prover has been asked one question after another. -/
  answers : env.Answers t w.calls w.prover
  /-- It was asked for what was sent first, in the order of sending. Each of these requests was
  answered as the prover has answered, and no other one was answered. -/
  sent_eq : ∃ later : List requesting.Query, w.channel.sent = w.passed ++ later ∧
    w.channel.responses = (w.calls.map posted).map .answered ++ later.map .unused
  /-- The worker ends just when no requester is left and everything was passed to the prover. -/
  turn_ended_iff : (w.turn env).phase = .ended ↔
    w.channel.hasRequesters = false ∧ w.passed = w.channel.sent
  exists_ended : w.channel.hasRequesters = false → ∃ k, ((Desk.turn env)^[k] w).phase = .ended
  /-- A worker that is not interrupted does what `serve` does. -/
  serve_eq : w.phase = .idle → ∀ k, let v := (Desk.turn env)^[2 * k] w
    serve env k (w.channel, w.prover) = (v.phase.status, v.channel, v.prover)

theorem Reachable.diligent (h : Reachable env t w) : w.Diligent env t := by
  obtain ⟨queued, h⟩ := h.sound
  have hpassed : (w.calls.map posted).map (·.query) = w.passed := List.map_map ..
  have hsent := h.holds.sent_eq
  rw [hpassed] at hsent
  refine ⟨h.answers, ⟨_, hsent, h.holds.responses_eq⟩, h.turn_ended_iff, h.exists_ended, ?_⟩
  obtain ⟨c, phase, s, xs⟩ := w
  rintro rfl k
  exact h.serve_eq k

end Desk

end Worker

end ShieldedWallet
