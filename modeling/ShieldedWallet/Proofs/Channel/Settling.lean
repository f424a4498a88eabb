import ShieldedWallet.Proofs.Channel.Reflecting

/-!
# Outcomes of requests

Whatever is done with a channel, each request ends with the answer that was sent through its own
responder, or with the error that says why there can be no answer. What is done with the responders
of other requests makes no difference to it.
-/

namespace ShieldedWallet

namespace Slot

variable {α : Type} {s : Slot α}

theorem poll_eq_pending_iff : s.poll = .pending ↔ s = .unused := by
  cases s <;> simp [poll]

theorem poll_eq_ok_iff {a : α} : s.poll = .ready (.ok a) ↔ s = .answered a := by
  cases s <;> simp [poll]

theorem poll_eq_dropped_iff : s.poll = .ready (.error .dropped) ↔ s = .dropped := by
  cases s <;> simp [poll]

theorem poll_ne_closed (s : Slot α) : s.poll ≠ .ready (.error .closed) := by
  cases s <;> simp [poll]

end Slot

namespace Channel

variable {I : Interface} {h : Log I} {c c' : Channel I} {t : Ticket I} {n m : Nat}

/-- By the log `h`, and in the channel `c` that has come about, requests and their responders end as
they should. -/
structure Settles (h : Log I) (c : Channel I) : Prop where
  /-- A request can be started by a requester that is alive. -/
  isSome_start_iff : ∀ i q, (c.start i q).isSome = true ↔ h.Alive i
  /-- It fails at once if the listener has been dropped, and it is sent otherwise. -/
  start : ∀ i q p c', c.start i q = some (p, c') →
    (p = .ready (.error .closed) ↔ h.Closed) ∧ (p = .pending ↔ ¬ h.Closed)
  /-- A request can be polled until it is finished or abandoned. -/
  isSome_poll_iff : ∀ n, (c.poll n).isSome = true ↔ h.Waits n
  /-- It is finished if it was answered or if its responder was dropped without an answer. -/
  poll : ∀ n q p c', c.poll n = some (⟨q, p⟩, c') → (n, q) ∈ h.sent ∧
    (∀ a, p = .ready (.ok a) ↔ h.Answered n q a) ∧ (p = .ready (.error .dropped) ↔ h.Lost n) ∧
    p ≠ .ready (.error .closed) ∧ (p = .pending ↔ (∀ a, ¬ h.Answered n q a) ∧ ¬ h.Lost n)
  /-- A responder can be used once after it was handed out, unless it has been dropped. -/
  isSome_respond_iff : ∀ n answer, (c.respond n answer).isSome = true ↔ h.Held n
  /-- The answer is heard unless the request has been abandoned. -/
  respond : ∀ n answer heard c', c.respond n answer = some (heard, c') →
    (heard = true ↔ ¬ h.Abandoned n)

/-! ## Outcomes -/

/-- What was sent to a request that has not been abandoned was sent to it in time. -/
theorem Log.answered_iff_given (hn : ¬ h.Abandoned n) (q : I.Query) (a : I.Answer q) :
    h.Answered n q a ↔ h.Given n q a := by
  constructor
  · rintro ⟨h₁, e, h₂, rfl, ⟨f, b, rfl, ha⟩, -⟩
    exact ⟨f, b, by simp, ha⟩
  · rintro ⟨f, b, hmem, ha⟩
    obtain ⟨h₁, h₂, rfl⟩ := List.append_of_mem hmem
    exact ⟨h₁, _, h₂, rfl, ⟨f, b, rfl, ha⟩, fun hbefore => hn (List.mem_append_left _ hbefore)⟩

theorem Agrees.settles (ha : c.Agrees h) : Settles h c where
  isSome_start_iff i q := by
    rw [← ha.requesters.alive]
    cases hi : c.isAlive i with
    | false => simp [start_of_not_isAlive hi]
    | true =>
      cases hl : c.listening with
      | false => simp [start_of_not_listening hi hl]
      | true => simp [start_of_listening hi hl]
  start i q p c' hs := by
    have hlistening := ha.queue.listening
    rcases (start_cases hs).2 with ⟨ht, rfl, -⟩ | ⟨hf, rfl, -⟩
    · have hclosed : ¬ h.Closed := hlistening.1 ht
      simp [hclosed]
    · have hclosed : h.Closed := by
        by_contra hclosed
        rw [hlistening.2 hclosed] at hf
        cases hf
      simp [hclosed]
  isSome_poll_iff n := by
    rw [ha.waits_iff]
    constructor
    · intro hsome
      obtain ⟨⟨r, c'⟩, hp⟩ := Option.isSome_iff_exists.1 hsome
      obtain ⟨t, ht, hwaiting, -⟩ := poll_eq_some hp
      exact ⟨t, ht, hwaiting⟩
    · rintro ⟨t, ht, hwaiting⟩
      rw [poll_of_waiting ht hwaiting]
      rfl
  poll n q p c' hp := by
    obtain ⟨t, ht, hwaiting, heq, -⟩ := poll_eq_some hp
    cases heq
    have hs := ha.requests.shows n t ht
    obtain ⟨hsent, habandoned, -⟩ := hs.waiting.1 hwaiting
    have hanswered : ∀ a, h.Answered n t.query a ↔ h.Given n t.query a :=
      Log.answered_iff_given habandoned t.query
    refine ⟨?_, fun a => ?_, ?_, t.slot.poll_ne_closed, ?_⟩
    · obtain ⟨q, hmem⟩ := hsent
      obtain ⟨u, hu, rfl⟩ := ha.queue.ticket_of_sent hmem
      cases ht.symm.trans hu
      exact hmem
    · rw [Slot.poll_eq_ok_iff, hs.answered, hanswered]
    · rw [Slot.poll_eq_dropped_iff, hs.dropped, or_iff_right (not_not_intro hsent)]
    · rw [Slot.poll_eq_pending_iff, hs.unused_iff, ← Log.exists_given_iff h n t.query, not_exists]
      simp only [hanswered, hsent, true_and]
      exact and_comm
  isSome_respond_iff n answer := by
    rw [← ha.isSome_responder?_iff]
    unfold Channel.respond
    rw [Option.isSome_map]
  respond n answer heard c' hc := by
    obtain ⟨t, ht, rfl, -⟩ := respond_eq_some hc
    obtain ⟨hticket, hunused, -⟩ := responder?_eq_some_iff.1 ht
    have hs := ha.requests.shows n t hticket
    obtain ⟨hsent, -, -⟩ := hs.unused_iff.1 hunused
    have hfinished : ¬ h.Finished n := fun hf => hs.finished hf hunused
    rw [hs.waiting]
    exact ⟨fun hw => hw.2.1, fun habandoned => ⟨hsent, habandoned, hfinished⟩⟩

/-! ## Other responders -/

/-- Whether the operation uses or drops the responder of a request other than `n`. -/
def Operation.isForeign (n : Nat) : Operation I → Bool
  | .respond m _ => m != n
  | .dropResponder m => m != n
  | _ => false

/-- The request that is used, or whose responder is used. -/
def Operation.request? : Operation I → Option Nat
  | .poll n => some n
  | .abandon n => some n
  | .respond n _ => some n
  | .dropResponder n => some n
  | _ => none

/-- What becomes of the channel. -/
def step (c : Channel I) (o : Operation I) : Channel I := ((c.perform o).map (·.2)).getD c

theorem step_clone (c : Channel I) (i : Nat) :
    c.step (.clone i) = ((c.clone i).map (·.2)).getD c :=
  congrArg (·.getD c) (Option.map_map ..)

theorem step_dropRequester (c : Channel I) (i : Nat) :
    c.step (.dropRequester i) = if c.isAlive i then c.dropRequester i else c := by
  simp only [step, perform]
  split <;> rfl

theorem step_start (c : Channel I) (i : Nat) (q : I.Query) :
    c.step (.start i q) = ((c.start i q).map (·.2)).getD c :=
  congrArg (·.getD c) (Option.map_map ..)

theorem step_poll (c : Channel I) (n : Nat) : c.step (.poll n) = ((c.poll n).map (·.2)).getD c :=
  congrArg (·.getD c) (Option.map_map ..)

theorem step_abandon (c : Channel I) (n : Nat) :
    c.step (.abandon n) = if c.isWaiting n then c.abandon n else c := by
  simp only [step, perform]
  split <;> rfl

theorem step_next (c : Channel I) :
    c.step .next = if c.listening then c.setQueue c.queue.tail else c := by
  rw [← next_snd]
  simp only [step, perform]
  split <;> rfl

theorem step_respond (c : Channel I) (n : Nat) (answer : (q : I.Query) → I.Answer q) :
    c.step (.respond n answer) = if (c.responder? n).isSome then
      c.modify n (.respond answer) else c := by
  simp only [step, perform, Channel.respond]
  cases c.responder? n <;> rfl

theorem step_dropResponder (c : Channel I) (n : Nat) :
    c.step (.dropResponder n) = if (c.responder? n).isSome then
      c.modify n .lose else c := by
  simp only [step, perform]
  split
  case isTrue hn => exact dropResponder_eq hn
  case isFalse => rfl

theorem step_dropListener (c : Channel I) :
    c.step .dropListener = if c.listening then c.dropListener else c := by
  simp only [step, perform]
  split <;> rfl

/-- Two channels that differ in what has become of requests other than `n`, and in nothing else. -/
structure Alike (n : Nat) (c c' : Channel I) : Prop where
  requesters : c.requesters = c'.requesters
  queries : c.tickets.map (·.query) = c'.tickets.map (·.query)
  ticket : c.tickets[n]? = c'.tickets[n]?
  queue : c.queue = c'.queue
  listening : c.listening = c'.listening

theorem Alike.refl (n : Nat) (c : Channel I) : Alike n c c := ⟨rfl, rfl, rfl, rfl, rfl⟩

theorem Alike.modify (ha : Alike n c c') {f : Ticket I → Ticket I} (hf : ∀ t, (f t).query = t.query)
    (m : Nat) : Alike n (c.modify m f) (c'.modify m f) where
  requesters := ha.requesters
  queries := (map_modify_of_eq hf c.tickets m).trans
    (ha.queries.trans (map_modify_of_eq hf c'.tickets m).symm)
  ticket := by
    show (c.tickets.modify m f)[n]? = (c'.tickets.modify m f)[n]?
    rw [List.getElem?_modify, List.getElem?_modify, ha.ticket]
  queue := ha.queue
  listening := ha.listening

/-- Another request may change. -/
theorem Alike.modify_left (ha : Alike n c c') {f : Ticket I → Ticket I}
    (hf : ∀ t, (f t).query = t.query) (hm : m ≠ n) : Alike n (c.modify m f) c' where
  requesters := ha.requesters
  queries := (map_modify_of_eq hf c.tickets m).trans ha.queries
  ticket := by
    show (c.tickets.modify m f)[n]? = c'.tickets[n]?
    rw [List.getElem?_modify, ha.ticket]
    simp [hm]
  queue := ha.queue
  listening := ha.listening

theorem Alike.symm (ha : Alike n c c') : Alike n c' c :=
  ⟨ha.requesters.symm, ha.queries.symm, ha.ticket.symm, ha.queue.symm, ha.listening.symm⟩

theorem Alike.length_eq (ha : Alike n c c') : c.tickets.length = c'.tickets.length := by
  simpa using congrArg List.length ha.queries

theorem responder?_congr (ht : c.tickets[n]? = c'.tickets[n]?) (hq : c.queue = c'.queue) :
    c.responder? n = c'.responder? n := by
  unfold responder?
  rw [ht, hq]

/-- What is done with one request changes its ticket, in a way that depends on this ticket and on
the queue only. -/
theorem step_eq_modify {o : Operation I} (ho : o.request? = some m)
    (ht : c.tickets[m]? = c'.tickets[m]?) (hq : c.queue = c'.queue) :
    ∃ f : Ticket I → Ticket I, (∀ t, (f t).query = t.query) ∧ c.step o = c.modify m f ∧
      c'.step o = c'.modify m f := by
  have hid : ∃ f : Ticket I → Ticket I, (∀ t, (f t).query = t.query) ∧ c = c.modify m f ∧
      c' = c'.modify m f := ⟨id, fun _ => rfl, (modify_id c m).symm, (modify_id c' m).symm⟩
  cases o <;> cases ho
  case poll =>
    rw [step_poll, step_poll]
    by_cases hwaits : ∃ t, c'.tickets[m]? = some t ∧ t.waiting = true
    · obtain ⟨t, ht', hwaiting⟩ := hwaits
      rw [poll_of_waiting (ht.trans ht') hwaiting, poll_of_waiting ht' hwaiting]
      cases hslot : t.slot with
      | unused => exact hid
      | _ => exact ⟨.leave, fun _ => rfl, rfl, rfl⟩
    · have hnot : ∀ t, c'.tickets[m]? = some t → t.waiting = false := by simpa using hwaits
      rw [poll_of_not_waiting (ht ▸ hnot), poll_of_not_waiting hnot]
      exact hid
  case abandon =>
    have hwaiting : c.isWaiting m = c'.isWaiting m := by
      unfold isWaiting
      rw [ht]
    rw [step_abandon, step_abandon, hwaiting]
    split
    · exact ⟨.leave, fun _ => rfl, rfl, rfl⟩
    · exact hid
  case respond answer =>
    rw [step_respond, step_respond, responder?_congr ht hq]
    split
    · exact ⟨.respond answer, fun _ => rfl, rfl, rfl⟩
    · exact hid
  case dropResponder =>
    rw [step_dropResponder, step_dropResponder, responder?_congr ht hq]
    split
    · exact ⟨.lose, fun _ => rfl, rfl, rfl⟩
    · exact hid

theorem Alike.isAlive (ha : Alike n c c') (i : Nat) : c.isAlive i = c'.isAlive i := by
  rw [Bool.eq_iff_iff, isAlive_iff, isAlive_iff, ha.requesters]

theorem Alike.push (ha : Alike n c c') (t : Ticket I) : Alike n (c.push t) (c'.push t) where
  requesters := ha.requesters
  queries := by rw [tickets_push, tickets_push, List.map_append, List.map_append, ha.queries]
  ticket := by
    rw [tickets_push, tickets_push, List.getElem?_append, List.getElem?_append, ha.ticket,
      ha.length_eq]
  queue := ha.queue
  listening := ha.listening

theorem Alike.setQueue (ha : Alike n c c') (ns : List Nat) :
    Alike n (c.setQueue ns) (c'.setQueue ns) :=
  ⟨ha.requesters, ha.queries, ha.ticket, rfl, ha.listening⟩

/-- What is done with no particular request goes the same way in both channels. -/
theorem Alike.step_of_none (ha : Alike n c c') {o : Operation I} (ho : o.request? = none) :
    Alike n (c.step o) (c'.step o) := by
  cases o <;> cases ho
  case clone i =>
    rw [step_clone, step_clone]
    cases hi : c'.isAlive i with
    | false =>
      rw [clone_of_not_isAlive hi, clone_of_not_isAlive ((ha.isAlive i).trans hi)]
      exact ha
    | true =>
      rw [clone_of_isAlive hi, clone_of_isAlive ((ha.isAlive i).trans hi)]
      exact ⟨congrArg (· ++ [true]) ha.requesters, ha.queries, ha.ticket, ha.queue, ha.listening⟩
  case dropRequester i =>
    rw [step_dropRequester, step_dropRequester, ha.isAlive]
    split
    · exact ⟨congrArg (List.set · i false) ha.requesters, ha.queries, ha.ticket, ha.queue,
        ha.listening⟩
    · exact ha
  case start i q =>
    rw [step_start, step_start]
    cases hi : c'.isAlive i with
    | false =>
      rw [start_of_not_isAlive hi, start_of_not_isAlive ((ha.isAlive i).trans hi)]
      exact ha
    | true =>
      have hi' := (ha.isAlive i).trans hi
      cases hl : c'.listening with
      | false =>
        rw [start_of_not_listening hi hl, start_of_not_listening hi' (ha.listening.trans hl)]
        exact ha.push _
      | true =>
        rw [start_of_listening hi hl, start_of_listening hi' (ha.listening.trans hl), ha.queue,
          ha.length_eq]
        exact (ha.setQueue _).push _
  case next =>
    rw [step_next, step_next, ha.listening]
    split
    · rw [ha.queue]
      exact ha.setQueue _
    · exact ha
  case dropListener =>
    rw [step_dropListener, step_dropListener, ha.listening]
    split
    · refine ⟨ha.requesters, ?_, ?_, rfl, rfl⟩
      · rw [map_query_dropListener, map_query_dropListener, ha.queries]
      · rw [getElem?_dropListener, getElem?_dropListener, ha.ticket, ha.queue]
    · exact ha

theorem Alike.step (ha : Alike n c c') (o : Operation I) : Alike n (c.step o) (c'.step o) := by
  cases ho : o.request? with
  | none => exact ha.step_of_none ho
  | some m =>
    by_cases hm : m = n
    · subst hm
      obtain ⟨f, hf, hc, hc'⟩ := step_eq_modify ho ha.ticket ha.queue
      rw [hc, hc']
      exact ha.modify hf m
    · -- Each of the two channels changes in another request, and not necessarily in the same way.
      obtain ⟨f, hf, hc, -⟩ := step_eq_modify (c := c) ho rfl rfl
      obtain ⟨f', hf', hc', -⟩ := step_eq_modify (c := c') ho rfl rfl
      rw [hc, hc']
      exact ((ha.modify_left hf hm).symm.modify_left hf' hm).symm

theorem Alike.step_foreign (ha : Alike n c c') {o : Operation I} (ho : o.isForeign n = true) :
    Alike n (c.step o) c' := by
  have hrequest : ∃ m, o.request? = some m ∧ m ≠ n := by
    cases o <;> simp_all [Operation.isForeign, Operation.request?]
  obtain ⟨m, hrequest, hm⟩ := hrequest
  obtain ⟨f, hf, hc, -⟩ := step_eq_modify (c := c) hrequest rfl rfl
  rw [hc]
  exact ha.modify_left hf hm

theorem performAll_cons (c : Channel I) (o : Operation I) (os : List (Operation I)) :
    (c.performAll (o :: os)).2 = ((c.step o).performAll os).2 := by
  unfold step
  rw [performAll]
  cases c.perform o <;> rfl

/-- Leaving out what is done with the responders of other requests changes nothing about `n`. -/
theorem Alike.performAll (ha : Alike n c c') (os : List (Operation I)) :
    Alike n (c.performAll os).2 (c'.performAll (os.filter fun o => !o.isForeign n)).2 := by
  induction os generalizing c c' with
  | nil => exact ha
  | cons o os ih =>
    rw [performAll_cons]
    cases ho : o.isForeign n with
    | true =>
      rw [List.filter_cons_of_neg (by simp [ho])]
      exact ih (ha.step_foreign ho)
    | false =>
      rw [List.filter_cons_of_pos (by simp [ho]), performAll_cons]
      exact ih (ha.step o)

theorem Alike.poll_eq (ha : Alike n c c') : (c.poll n).map (·.1) = (c'.poll n).map (·.1) := by
  by_cases hwaits : ∃ t, c'.tickets[n]? = some t ∧ t.waiting = true
  · obtain ⟨t, ht, hwaiting⟩ := hwaits
    rw [poll_of_waiting (ha.ticket.trans ht) hwaiting, poll_of_waiting ht hwaiting]
    rfl
  · have hnot : ∀ t, c'.tickets[n]? = some t → t.waiting = false := by simpa using hwaits
    rw [poll_of_not_waiting (ha.ticket ▸ hnot), poll_of_not_waiting hnot]

/-- Whatever is done with a new channel, requests and their responders end as they should. If what is
done with the responders of other requests is left out, a request finds the same outcome. -/
theorem settles_performAll (os : List (Operation I)) :
    Settles ((new : Channel I).performAll os).1 ((new : Channel I).performAll os).2 ∧
      ∀ n, (((new : Channel I).performAll os).2.poll n).map (·.1) =
        (((new : Channel I).performAll (os.filter fun o => !o.isForeign n)).2.poll n).map (·.1) :=
  ⟨(agrees_new.performAll os).settles, fun n => ((Alike.refl n new).performAll os).poll_eq⟩

end Channel

end ShieldedWallet
