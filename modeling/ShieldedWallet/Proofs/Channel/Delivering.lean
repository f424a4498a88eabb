import ShieldedWallet.Proofs.Channel.Reflecting

/-!
# Delivery of requests

Whatever is done with a channel, the listener gets the requests in the order in which they were
sent, each of them once, those included that have been abandoned. It learns of the end when it has
got everything and no requester is left, and then nothing can come any more.
-/

namespace ShieldedWallet

namespace Channel

variable {I : Interface} {h : Log I} {c c' : Channel I} {e : Event I} {n : Nat}

/-- By the log `h`, and in the channel `c` that has come about, the listener gets what it should. -/
structure Delivers (h : Log I) (c : Channel I) : Prop where
  /-- What was got is what was sent first, in the order of sending. -/
  received_prefix : h.received <+: h.sent
  /-- Nothing was got twice. -/
  nodup_received : (h.received.map (·.1)).Nodup
  /-- The next request is the oldest one in the queue. -/
  request_iff : ∀ n q, c.next.1 = .request n q ↔ h.Queued n ∧ h.received ++ [(n, q)] <+: h.sent
  /-- The listener waits for requests that may still be sent. -/
  pending_iff : c.next.1 = .pending ↔ (∀ n, ¬ h.Queued n) ∧ h.HasRequesters
  /-- The end comes when everything was got and no requester is left. -/
  ended_iff : c.next.1 = .ended ↔ (∀ n, ¬ h.Queued n) ∧ ¬ h.HasRequesters
  /-- The end is final. -/
  ended : c.next.1 = .ended → ∀ os, (c.performAll os).2.next.1 = .ended

/-! ## Requesters that are left -/

theorem hasRequesters_iff (c : Channel I) : c.hasRequesters = true ↔
    (∃ i, c.isAlive i = true) ∨
      ∃ (n : Nat) (t : Ticket I), c.tickets[n]? = some t ∧ t.waiting = true := by
  unfold hasRequesters isLent
  rw [Bool.or_eq_true, List.any_eq_true, List.any_eq_true]
  refine or_congr ?_ ?_
  · constructor
    · rintro ⟨b, hmem, rfl⟩
      obtain ⟨i, hi⟩ := List.mem_iff_getElem?.1 hmem
      exact ⟨i, isAlive_iff.2 hi⟩
    · rintro ⟨i, hi⟩
      exact ⟨true, List.mem_of_getElem? (isAlive_iff.1 hi), rfl⟩
  · constructor
    · rintro ⟨t, hmem, ht⟩
      obtain ⟨n, hn⟩ := List.mem_iff_getElem?.1 hmem
      exact ⟨n, t, hn, ht⟩
    · rintro ⟨n, t, hn, ht⟩
      exact ⟨t, List.mem_of_getElem? hn, ht⟩

theorem Agrees.hasRequesters_iff (ha : c.Agrees h) :
    c.hasRequesters = true ↔ h.HasRequesters := by
  rw [Channel.hasRequesters_iff]
  refine or_congr (exists_congr ha.requesters.alive) (exists_congr fun n => ?_)
  rw [ha.waits_iff]

/-! ## The end -/

/-- There is nothing in the queue, and no requester is left. -/
def IsOver (c : Channel I) : Prop := c.queue = [] ∧ c.hasRequesters = false

theorem next_eq_ended_iff : c.next.1 = .ended ↔ c.IsOver := by
  unfold IsOver
  cases hqueue : c.queue with
  | nil =>
    rw [next_of_nil hqueue]
    cases c.hasRequesters <;> simp
  | cons n ns => simp [next_ne_ended (c := c) (by simp [hqueue])]

theorem IsOver.use (hc : c.IsOver) (hu : c.Use c') : c'.IsOver := by
  obtain ⟨hr, hqueue⟩ := hu.no_requesters hc.2
  exact ⟨hqueue.trans hc.1, hr⟩

theorem IsOver.modify (hc : c.IsOver) {f : Ticket I → Ticket I}
    (hf : ∀ t, (f t).waiting = t.waiting) (n : Nat) : (c.modify n f).IsOver :=
  ⟨hc.1, (hasRequesters_modify hf n).trans hc.2⟩

theorem IsOver.happens (hc : c.IsOver) (he : c.Happens e c') : c'.IsOver := by
  cases he with
  | cloned hclone => exact hc.use (.clone hclone)
  | requesterDropped => exact hc.use (.drop _)
  | started hs => exact hc.use (.start hs)
  | polled hpoll => exact hc.use (.poll hpoll)
  | abandoned => exact hc.use (.abandon _)
  | received =>
    rw [next_of_nil hc.1]
    exact hc
  | @responded n answer heard _ hrespond =>
    obtain ⟨t, -, -, rfl⟩ := respond_eq_some hrespond
    exact hc.modify (f := .respond answer) (fun _ => rfl) n
  | @responderDropped n hn =>
    rw [dropResponder_eq hn]
    exact hc.modify (f := .lose) (fun _ => rfl) n
  | listenerDropped =>
    -- The queue is empty, so that nothing is dropped with the listener.
    have htickets : c.dropListener.tickets = c.tickets := by
      refine List.ext_getElem? fun n => ?_
      simp [getElem?_dropListener, hc.1]
    refine ⟨rfl, ?_⟩
    have hr := hc.2
    unfold hasRequesters isLent at hr ⊢
    rw [htickets]
    exact hr

theorem IsOver.performAll (hc : c.IsOver) (os : List (Operation I)) :
    (c.performAll os).2.IsOver := by
  induction os generalizing c with
  | nil => exact hc
  | cons o os ih =>
    unfold Channel.performAll
    cases hp : c.perform o with
    | none => exact ih hc
    | some r => exact ih (hc.happens (happens_of_perform hp))

/-! ## The listener -/

theorem Agrees.delivers (ha : c.Agrees h) : Delivers h c := by
  have hqueue := ha.queue
  obtain ⟨rest, hsplit, -⟩ := hqueue.split
  have hfirst : h.received <+: h.sent := ⟨rest, hsplit.symm⟩
  have hempty : c.queue = [] ↔ ∀ n, ¬ h.Queued n := by
    rw [List.eq_nil_iff_forall_not_mem]
    exact forall_congr' fun n => not_congr hqueue.mem_queue_iff
  refine ⟨hfirst, (hfirst.map _).sublist.nodup (Log.nodup_sent h), fun n q => ?_, ?_, ?_, ?_⟩
  · rcases hqueue.next_cases with ⟨hnil, hnext⟩ | ⟨m, q', later, hcons, hsent, hnext⟩
    · have hnot := hempty.1 hnil n
      rw [hnext]
      cases c.hasRequesters <;> simp [hnot]
    · have hqueued : h.Queued m := hqueue.mem_queue_iff.1 (hcons ▸ List.mem_cons_self)
      rw [hnext, hsent, List.prefix_append_right_inj, List.cons_prefix_cons]
      constructor
      · rintro ⟨⟩
        exact ⟨hqueued, rfl, List.nil_prefix⟩
      · rintro ⟨-, heq, -⟩
        cases heq
        rfl
  · rw [← hempty, ← ha.hasRequesters_iff]
    rcases hqueue.next_cases with ⟨hnil, hnext⟩ | ⟨m, q', later, hcons, -, hnext⟩
    · rw [hnext]
      cases c.hasRequesters <;> simp [hnil]
    · rw [hnext]
      simp [hcons]
  · rw [← hempty, ← ha.hasRequesters_iff, next_eq_ended_iff, Bool.not_eq_true]
    exact Iff.rfl
  · intro hended os
    exact next_eq_ended_iff.2 ((next_eq_ended_iff.1 hended).performAll os)

/-- What is done with a new channel, in any order, is delivered as it should be. -/
theorem delivers_performAll (os : List (Operation I)) :
    Delivers ((new : Channel I).performAll os).1 ((new : Channel I).performAll os).2 :=
  (agrees_new.performAll os).delivers

/-- A request that was abandoned in the queue is delivered all the same. -/
example (q q' : I.Query) : Log.received ((new : Channel I).performAll
    [.start 0 q, .clone 0, .start 1 q', .abandon 0, .next, .next]).1 = [(0, q), (1, q')] := rfl

end Channel

end ShieldedWallet
