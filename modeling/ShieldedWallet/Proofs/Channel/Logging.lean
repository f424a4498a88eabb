import Mathlib.Data.List.Induction
import Mathlib.Data.List.Nodup
import ShieldedWallet.Channel.Basic

/-!
# What happens on a channel

Requesters, a listener and the holders of responders use a channel in any order. What they have done
and what was returned to them is written down in a log. What has become of each requester, of each
request and of its responder is then said about the log alone.
-/

namespace ShieldedWallet

namespace Channel

variable {I : Interface}

/-! ## Operations -/

/-- What can be done with a channel. -/
inductive Operation (I : Interface) where
  | clone (i : Nat)
  | dropRequester (i : Nat)
  | start (i : Nat) (q : I.Query)
  | poll (n : Nat)
  | abandon (n : Nat)
  | next
  | respond (n : Nat) (answer : (q : I.Query) → I.Answer q)
  | dropResponder (n : Nat)
  | dropListener

/-- What was done with a channel, and what it has returned. -/
inductive Event (I : Interface) where
  | cloned (i j : Nat)
  | requesterDropped (i : Nat)
  | started (i : Nat) (q : I.Query) (p : Poll (I.Answer q))
  | polled (n : Nat) (r : (q : I.Query) × Poll (I.Answer q))
  | abandoned (n : Nat)
  | received (d : Delivery I)
  | responded (n : Nat) (answer : (q : I.Query) → I.Answer q) (heard : Bool)
  | responderDropped (n : Nat)
  | listenerDropped

namespace Event

/-- The request that is started, and what is returned for it. -/
def start? : Event I → Option ((q : I.Query) × Poll (I.Answer q))
  | .started _ q p => some ⟨q, p⟩
  | _ => none

def delivery? : Event I → Option (Nat × I.Query)
  | .received (.request n q) => some (n, q)
  | _ => none

/-- The request that is used, or whose responder is used. -/
def request? : Event I → Option Nat
  | .polled n _ => some n
  | .abandoned n => some n
  | .responded n _ _ => some n
  | .responderDropped n => some n
  | _ => none

/-- What happens to one request is about nothing else. -/
theorem of_request? {e : Event I} {n : Nat} (he : e.request? = some n) :
    e.start? = none ∧ e.delivery? = none ∧ e ≠ .listenerDropped ∧ (∀ i j, e ≠ .cloned i j) ∧
      ∀ i, e ≠ .requesterDropped i := by
  cases e <;> cases he <;> exact ⟨rfl, rfl, nofun, nofun, nofun⟩

end Event

def isWaiting (c : Channel I) (n : Nat) : Bool := c.tickets[n]?.any (·.waiting)

/-- Does what is asked for, if it is possible. Only what is there can be used or dropped. -/
def perform (c : Channel I) : Operation I → Option (Event I × Channel I)
  | .clone i => (c.clone i).map fun (j, c') => (.cloned i j, c')
  | .dropRequester i =>
    if c.isAlive i then some (.requesterDropped i, c.dropRequester i) else none
  | .start i q => (c.start i q).map fun (p, c') => (.started i q p, c')
  | .poll n => (c.poll n).map fun (r, c') => (.polled n r, c')
  | .abandon n => if c.isWaiting n then some (.abandoned n, c.abandon n) else none
  | .next => if c.listening then some (.received c.next.1, c.next.2) else none
  | .respond n answer =>
    (c.respond n answer).map fun (heard, c') => (.responded n answer heard, c')
  | .dropResponder n =>
    if (c.responder? n).isSome then some (.responderDropped n, c.dropResponder n) else none
  | .dropListener => if c.listening then some (.listenerDropped, c.dropListener) else none

/-- What can happen to a channel, and what it becomes. -/
inductive Happens (c : Channel I) : Event I → Channel I → Prop where
  | cloned {i j : Nat} {c' : Channel I} (h : c.clone i = some (j, c')) : Happens c (.cloned i j) c'
  | requesterDropped {i : Nat} (h : c.isAlive i = true) :
      Happens c (.requesterDropped i) (c.dropRequester i)
  | started {i : Nat} {q : I.Query} {p : Poll (I.Answer q)} {c' : Channel I}
      (h : c.start i q = some (p, c')) : Happens c (.started i q p) c'
  | polled {n : Nat} {r : (q : I.Query) × Poll (I.Answer q)} {c' : Channel I}
      (h : c.poll n = some (r, c')) : Happens c (.polled n r) c'
  | abandoned {n : Nat} (h : c.isWaiting n = true) : Happens c (.abandoned n) (c.abandon n)
  | received (h : c.listening = true) : Happens c (.received c.next.1) c.next.2
  | responded {n : Nat} {answer : (q : I.Query) → I.Answer q} {heard : Bool} {c' : Channel I}
      (h : c.respond n answer = some (heard, c')) : Happens c (.responded n answer heard) c'
  | responderDropped {n : Nat} (h : (c.responder? n).isSome = true) :
      Happens c (.responderDropped n) (c.dropResponder n)
  | listenerDropped (h : c.listening = true) : Happens c .listenerDropped c.dropListener

theorem happens_of_perform {c c' : Channel I} {o : Operation I} {e : Event I}
    (hp : c.perform o = some (e, c')) : c.Happens e c' := by
  cases o with
  | clone i =>
    obtain ⟨⟨j, c₁⟩, hc, heq⟩ := Option.map_eq_some_iff.1 hp
    cases heq
    exact .cloned hc
  | dropRequester i =>
    obtain ⟨hi, heq⟩ := Option.ite_none_right_eq_some.1 hp
    cases heq
    exact .requesterDropped hi
  | start i q =>
    obtain ⟨⟨p, c₁⟩, hs, heq⟩ := Option.map_eq_some_iff.1 hp
    cases heq
    exact .started hs
  | poll n =>
    obtain ⟨⟨r, c₁⟩, hpoll, heq⟩ := Option.map_eq_some_iff.1 hp
    cases heq
    exact .polled hpoll
  | abandon n =>
    obtain ⟨hn, heq⟩ := Option.ite_none_right_eq_some.1 hp
    cases heq
    exact .abandoned hn
  | next =>
    obtain ⟨hlistening, heq⟩ := Option.ite_none_right_eq_some.1 hp
    cases heq
    exact .received hlistening
  | respond n answer =>
    obtain ⟨⟨heard, c₁⟩, hrespond, heq⟩ := Option.map_eq_some_iff.1 hp
    cases heq
    exact .responded hrespond
  | dropResponder n =>
    obtain ⟨hn, heq⟩ := Option.ite_none_right_eq_some.1 hp
    cases heq
    exact .responderDropped hn
  | dropListener =>
    obtain ⟨hlistening, heq⟩ := Option.ite_none_right_eq_some.1 hp
    cases heq
    exact .listenerDropped hlistening

/-- What was done with a channel, in the order in which it was done. -/
abbrev Log (I : Interface) := List (Event I)

/-- Does one thing after another, passing over what is impossible. The result says what was done. -/
def performAll (c : Channel I) : List (Operation I) → Log I × Channel I
  | [] => ([], c)
  | o :: os =>
    match c.perform o with
    | none => c.performAll os
    | some (e, c') => (e :: (c'.performAll os).1, (c'.performAll os).2)

/-! ## What a log says -/

namespace Log

/-- The requests that were started, in the order of their numbers, and what their start has
returned. -/
def starts (h : Log I) : List ((q : I.Query) × Poll (I.Answer q)) := h.filterMap Event.start?

/-- The request with the number `n`, if it could be sent. -/
def sent? : ((q : I.Query) × Poll (I.Answer q)) × Nat → Option (Nat × I.Query)
  | (⟨q, .pending⟩, n) => some (n, q)
  | (⟨_, .ready _⟩, _) => none

/-- The requests that could be sent, in the order in which they were started. -/
def sent (h : Log I) : List (Nat × I.Query) := (starts h).zipIdx.filterMap sent?

/-- The requests that the listener has got, in the order in which it has got them. -/
def received (h : Log I) : List (Nat × I.Query) := h.filterMap Event.delivery?

/-- There is an event with the property `P` of the log before it and of the event itself. -/
def Once (h : Log I) (P : Log I → Event I → Prop) : Prop := ∃ h₁ e h₂, h = h₁ ++ e :: h₂ ∧ P h₁ e

/-! ### Requesters and the listener -/

def Made (h : Log I) (i : Nat) : Prop := i = 0 ∨ ∃ j, .cloned j i ∈ h

def RequesterDropped (h : Log I) (i : Nat) : Prop := .requesterDropped i ∈ h

def Alive (h : Log I) (i : Nat) : Prop := Made h i ∧ ¬ RequesterDropped h i

def Closed (h : Log I) : Prop := .listenerDropped ∈ h

/-! ### Requests -/

def Sent (h : Log I) (n : Nat) : Prop := ∃ q, (n, q) ∈ sent h

def Abandoned (h : Log I) (n : Nat) : Prop := .abandoned n ∈ h

/-- The request `n` was polled and had an outcome. -/
def Finished (h : Log I) (n : Nat) : Prop := ∃ q o, .polled n ⟨q, .ready o⟩ ∈ h

def Waits (h : Log I) (n : Nat) : Prop := Sent h n ∧ ¬ Abandoned h n ∧ ¬ Finished h n

/-- Some requester is alive, counting those of unfinished requests. -/
def HasRequesters (h : Log I) : Prop := (∃ i, Alive h i) ∨ ∃ n, Waits h n

/-! ### Responders -/

def Received (h : Log I) (n : Nat) : Prop := ∃ q, (n, q) ∈ received h

/-- The request `n` is in the queue. -/
def Queued (h : Log I) (n : Nat) : Prop := Sent h n ∧ ¬ Received h n ∧ ¬ Closed h

def Responded (h : Log I) (n : Nat) : Prop := ∃ f b, .responded n f b ∈ h

def ResponderDropped (h : Log I) (n : Nat) : Prop := .responderDropped n ∈ h

def Held (h : Log I) (n : Nat) : Prop :=
  Received h n ∧ ¬ Responded h n ∧ ¬ ResponderDropped h n

/-- The answer `a` was sent to the request `n`, which asks `q`. -/
def Given (h : Log I) (n : Nat) (q : I.Query) (a : I.Answer q) : Prop :=
  ∃ f b, .responded n f b ∈ h ∧ f q = a

/-- The answer `a` was sent to the request `n`, which asks `q`, when it had not been abandoned. -/
def Answered (h : Log I) (n : Nat) (q : I.Query) (a : I.Answer q) : Prop :=
  Once h fun before e => (∃ f b, e = .responded n f b ∧ f q = a) ∧ ¬ Abandoned before n

/-- The listener was dropped with the request `n` in the queue. -/
def Left (h : Log I) (n : Nat) : Prop :=
  Once h fun before e => e = .listenerDropped ∧ Queued before n

/-- The responder of the request `n` was dropped without an answer, by who had got it or in the
queue. -/
def Lost (h : Log I) (n : Nat) : Prop := ResponderDropped h n ∨ Left h n

/-! ## One more event -/

variable {h : Log I} {e : Event I} {n : Nat} {q : I.Query}

@[simp] theorem starts_concat (h : Log I) (e : Event I) :
    starts (h ++ [e]) = starts h ++ e.start?.toList := by
  unfold starts
  rw [List.filterMap_append]
  cases he : e.start? <;> simp [he]

@[simp] theorem received_concat (h : Log I) (e : Event I) :
    received (h ++ [e]) = received h ++ e.delivery?.toList := by
  unfold received
  rw [List.filterMap_append]
  cases he : e.delivery? <;> simp [he]

theorem sent_concat (h : Log I) (e : Event I) : sent (h ++ [e]) =
    sent h ++ (e.start?.bind fun r => sent? (r, (starts h).length)).toList := by
  unfold sent
  rw [starts_concat, List.zipIdx_append, List.filterMap_append]
  cases he : e.start? with
  | none => rfl
  | some r => cases hr : sent? (r, (starts h).length) <;> simp [hr]

theorem sent_concat_of_none (he : e.start? = none) : sent (h ++ [e]) = sent h := by
  rw [sent_concat, he]
  exact List.append_nil _

@[simp] theorem once_concat {P : Log I → Event I → Prop} :
    Once (h ++ [e]) P ↔ Once h P ∨ P h e := by
  constructor
  · -- The event with the property is the last one, or it is in the log before it.
    rintro ⟨h₁, e', h₂, heq, hP⟩
    rcases List.eq_nil_or_concat h₂ with rfl | ⟨h₂', x, rfl⟩
    · obtain ⟨rfl, he⟩ := List.append_inj' heq rfl
      cases he
      exact .inr hP
    · rw [List.concat_eq_append, ← List.cons_append, ← List.append_assoc] at heq
      exact .inl ⟨h₁, e', h₂', (List.append_inj' heq rfl).1, hP⟩
  · rintro (⟨h₁, e', h₂, rfl, hP⟩ | hP)
    · exact ⟨h₁, e', h₂ ++ [e], by simp, hP⟩
    · exact ⟨h, e, [], rfl, hP⟩

/-! ### Requesters and the listener -/

@[simp] theorem made_concat {i : Nat} :
    Made (h ++ [e]) i ↔ Made h i ∨ ∃ j, e = .cloned j i := by
  simp [Made, exists_or, or_assoc, eq_comm]

@[simp] theorem requesterDropped_concat {i : Nat} :
    RequesterDropped (h ++ [e]) i ↔ RequesterDropped h i ∨ e = .requesterDropped i := by
  simp [RequesterDropped, eq_comm]

@[simp] theorem closed_concat : Closed (h ++ [e]) ↔ Closed h ∨ e = .listenerDropped := by
  simp [Closed, eq_comm]

/-! ### Requests -/

theorem sent_concat_iff : Sent (h ++ [e]) n ↔
    Sent h n ∨ ∃ q, e.start? = some ⟨q, .pending⟩ ∧ n = (starts h).length := by
  unfold Sent
  rw [sent_concat]
  cases he : e.start? with
  | none => simp
  | some r =>
    obtain ⟨q, p⟩ := r
    cases p with
    | ready o => simp [sent?]
    | pending => simp [sent?, exists_or]

@[simp] theorem abandoned_concat : Abandoned (h ++ [e]) n ↔ Abandoned h n ∨ e = .abandoned n := by
  simp [Abandoned, eq_comm]

@[simp] theorem finished_concat :
    Finished (h ++ [e]) n ↔ Finished h n ∨ ∃ q o, e = .polled n ⟨q, .ready o⟩ := by
  simp [Finished, exists_or, eq_comm]

/-! ### Responders -/

theorem received_concat_iff :
    Received (h ++ [e]) n ↔ Received h n ∨ ∃ q, e.delivery? = some (n, q) := by
  unfold Received
  rw [received_concat]
  simp [exists_or]

@[simp] theorem responded_concat :
    Responded (h ++ [e]) n ↔ Responded h n ∨ ∃ f b, e = .responded n f b := by
  simp [Responded, exists_or, eq_comm]

theorem exists_given_iff (h : Log I) (n : Nat) (q : I.Query) :
    (∃ a, Given h n q a) ↔ Responded h n := by
  simp [Given, Responded]

theorem not_given (hn : ¬ Responded h n) (q : I.Query) (a : I.Answer q) : ¬ Given h n q a :=
  fun ha => hn ((exists_given_iff h n q).1 ⟨a, ha⟩)

@[simp] theorem given_concat {a : I.Answer q} :
    Given (h ++ [e]) n q a ↔ Given h n q a ∨ ∃ f b, e = .responded n f b ∧ f q = a := by
  simp [Given, exists_or, or_and_right, eq_comm]

@[simp] theorem responderDropped_concat :
    ResponderDropped (h ++ [e]) n ↔ ResponderDropped h n ∨ e = .responderDropped n := by
  simp [ResponderDropped, eq_comm]

@[simp] theorem left_concat : Left (h ++ [e]) n ↔ Left h n ∨ e = .listenerDropped ∧ Queued h n :=
  once_concat

theorem lost_concat : Lost (h ++ [e]) n ↔
    Lost h n ∨ e = .responderDropped n ∨ e = .listenerDropped ∧ Queued h n := by
  unfold Lost
  rw [responderDropped_concat, left_concat]
  exact or_or_or_comm

/-! ## What is sent -/

theorem mem_sent : (n, q) ∈ sent h ↔ (starts h)[n]? = some ⟨q, .pending⟩ := by
  unfold sent
  rw [List.mem_filterMap]
  constructor
  · rintro ⟨⟨⟨q', p⟩, n'⟩, hmem, hsent⟩
    rw [List.mem_zipIdx_iff_getElem?] at hmem
    cases p with
    | pending =>
      cases hsent
      exact hmem
    | ready o => cases hsent
  · intro hn
    exact ⟨(⟨q, .pending⟩, n), List.mem_zipIdx_iff_getElem?.2 hn, rfl⟩

theorem Sent.lt (hn : Sent h n) : n < (starts h).length := by
  obtain ⟨q, hq⟩ := hn
  exact (List.getElem?_eq_some_iff.1 (mem_sent.1 hq)).1

/-- No request is sent twice. -/
theorem nodup_sent (h : Log I) : ((sent h).map (·.1)).Nodup := by
  induction h using List.reverseRecOn with
  | nil => exact List.nodup_nil
  | append_singleton h e ih =>
    rw [sent_concat]
    cases hr : e.start?.bind fun r => sent? (r, (starts h).length) with
    | none => simpa using ih
    | some x =>
      have hx : x.1 = (starts h).length := by
        obtain ⟨⟨q, p⟩, -, hr⟩ := Option.bind_eq_some_iff.1 hr
        cases p <;> cases hr
        rfl
      -- What is sent now has the next number, and what was sent before has smaller ones.
      have hnew : x.1 ∉ (sent h).map (·.1) := by
        intro hmem
        obtain ⟨⟨n, q⟩, hmem, hn⟩ := List.mem_map.1 hmem
        have hlt := Sent.lt ⟨q, hmem⟩
        dsimp only at hn
        omega
      simpa [List.nodup_append, ih] using fun n q hmem (hn : n = x.1) =>
        hnew (List.mem_map.2 ⟨(n, q), hmem, hn⟩)

end Log

end Channel

end ShieldedWallet
