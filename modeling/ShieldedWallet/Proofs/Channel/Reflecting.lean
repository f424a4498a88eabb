import ShieldedWallet.Proofs.Channel.Logging
import ShieldedWallet.Proofs.Channel.Serving

/-!
# A channel and its log

What a channel knows about its requesters, its queue and its requests agrees with the log of what
was done with it. Each operation keeps this up.
-/

namespace ShieldedWallet

namespace Channel

variable {I : Interface} {h : Log I} {c c' : Channel I} {e : Event I} {t : Ticket I} {n : Nat}

/-! ## Agreement -/

/-- The channel `c` knows the requesters that there are by the log. -/
structure KnowsRequesters (c : Channel I) (h : Log I) : Prop where
  made : ∀ i, i < c.requesters.length ↔ h.Made i
  dropped : ∀ i, h.RequesterDropped i → h.Made i
  alive : ∀ i, c.isAlive i = true ↔ h.Alive i

/-- The queue of the channel `c` is what has been sent and not been received, until the listener is
dropped. -/
structure KnowsQueue (c : Channel I) (h : Log I) : Prop where
  listening : c.listening = true ↔ ¬ h.Closed
  queries : c.tickets.map (·.query) = h.starts.map (·.1)
  split : ∃ rest, h.sent = h.received ++ rest ∧
    c.queue = if c.listening then rest.map (·.1) else []
  left : ∀ n, h.Left n ↔ h.Closed ∧ h.Sent n ∧ ¬ h.Received n

/-- The ticket `t` of the request `n` is as the log says. -/
structure Log.Shows (h : Log I) (n : Nat) (t : Ticket I) : Prop where
  waiting : t.waiting = true ↔ h.Waits n
  answered : ∀ a, t.slot = .answered a ↔ h.Given n t.query a
  dropped : t.slot = .dropped ↔ ¬ h.Sent n ∨ h.Lost n
  finished : h.Finished n → t.slot ≠ .unused

/-- The tickets of the channel `c` say what the log says. -/
structure KnowsRequests (c : Channel I) (h : Log I) : Prop where
  known : ∀ e ∈ h, ∀ n, e.request? = some n → n < c.tickets.length
  responded : ∀ n, h.Responded n → h.Received n
  shows : ∀ n t, c.tickets[n]? = some t → h.Shows n t

/-- The channel `c` agrees with the log of what was done with it. -/
structure Agrees (c : Channel I) (h : Log I) : Prop where
  requesters : c.KnowsRequesters h
  queue : c.KnowsQueue h
  requests : c.KnowsRequests h

theorem agrees_new : (new : Channel I).Agrees ([] : Log I) where
  requesters := {
    made := fun i => by simp [Log.Made]
    dropped := fun i hi => nomatch hi
    alive := fun i => by
      cases i <;> simp [isAlive_iff, Log.Alive, Log.Made, Log.RequesterDropped] }
  queue := {
    listening := by simp [Log.Closed]
    queries := rfl
    split := ⟨[], rfl, rfl⟩
    left := fun n => by simp [Log.Left, Log.Once, Log.Closed] }
  requests := {
    known := fun e he => nomatch he
    responded := fun n hn => by simp [Log.Responded] at hn
    shows := fun n t ht => nomatch ht }

/-! ## What the queue and the tickets say -/

theorem KnowsQueue.length_eq (hq : c.KnowsQueue h) : c.tickets.length = (Log.starts h).length := by
  simpa using congrArg List.length hq.queries

theorem KnowsQueue.sent_of_received (hq : c.KnowsQueue h) (hn : h.Received n) : h.Sent n := by
  obtain ⟨q, hmem⟩ := hn
  obtain ⟨rest, hsplit, -⟩ := hq.split
  exact ⟨q, hsplit ▸ List.mem_append_left _ hmem⟩

theorem KnowsQueue.mem_queue_iff (hq : c.KnowsQueue h) : n ∈ c.queue ↔ h.Queued n := by
  obtain ⟨rest, hsplit, hqueue⟩ := hq.split
  unfold Log.Queued
  rw [hqueue, ← hq.listening]
  cases c.listening with
  | false => simp
  | true =>
    -- Nothing is both received and still to come, since nothing is sent twice.
    have hnodup := Log.nodup_sent h
    rw [hsplit, List.map_append, List.nodup_append] at hnodup
    rw [if_pos rfl]
    constructor
    · intro hn
      obtain ⟨⟨m, q⟩, hmem, rfl⟩ := List.mem_map.1 hn
      refine ⟨⟨q, hsplit ▸ List.mem_append_right _ hmem⟩, ?_, rfl⟩
      rintro ⟨q', hmem'⟩
      exact hnodup.2.2 m (List.mem_map.2 ⟨_, hmem', rfl⟩) m hn rfl
    · rintro ⟨⟨q, hmem⟩, hnot, -⟩
      rw [hsplit] at hmem
      rcases List.mem_append.1 hmem with hmem | hmem
      · exact absurd ⟨q, hmem⟩ hnot
      · exact List.mem_map.2 ⟨_, hmem, rfl⟩

/-- As long as somebody listens, nothing has been left behind. -/
theorem KnowsQueue.of_listening (hq : c.KnowsQueue h) (hlistening : c.listening = true) :
    ¬ h.Closed ∧ ∀ n, ¬ h.Left n := by
  have hclosed : ¬ h.Closed := hq.listening.1 hlistening
  exact ⟨hclosed, fun n hn => hclosed ((hq.left n).1 hn).1⟩

/-- What has been sent is the query of its ticket. -/
theorem KnowsQueue.ticket_of_sent (hq : c.KnowsQueue h) {q : I.Query} (hmem : (n, q) ∈ h.sent) :
    ∃ t, c.tickets[n]? = some t ∧ t.query = q := by
  have hn : (c.tickets.map (·.query))[n]? = some q := by
    rw [hq.queries, List.getElem?_map, Log.mem_sent.1 hmem]
    rfl
  rw [List.getElem?_map] at hn
  exact Option.map_eq_some_iff.1 hn

theorem Log.Shows.unused_iff (hs : h.Shows n t) :
    t.slot = .unused ↔ h.Sent n ∧ ¬ h.Lost n ∧ ¬ h.Responded n := by
  rw [← Log.exists_given_iff h n t.query]
  simp only [← hs.answered]
  have hdropped := hs.dropped
  cases hslot : t.slot with
  | unused => simpa [hslot] using hdropped
  | answered a => simp
  | dropped =>
    constructor
    · intro hunused
      cases hunused
    · rintro ⟨hsent, hlost, -⟩
      rcases hdropped.1 hslot with hnot | hlost'
      · exact absurd hsent hnot
      · exact absurd hlost' hlost

/-- A request waits just when the log says so. -/
theorem Agrees.waits_iff (ha : c.Agrees h) :
    h.Waits n ↔ ∃ t, c.tickets[n]? = some t ∧ t.waiting = true := by
  constructor
  · intro hn
    obtain ⟨q, hmem⟩ := hn.1
    obtain ⟨t, ht, -⟩ := ha.queue.ticket_of_sent hmem
    exact ⟨t, ht, (ha.requests.shows n t ht).waiting.2 hn⟩
  · rintro ⟨t, ht, hwaiting⟩
    exact (ha.requests.shows n t ht).waiting.1 hwaiting

/-- The responder of a request can be used just when the log says so. -/
theorem Agrees.isSome_responder?_iff (ha : c.Agrees h) :
    (c.responder? n).isSome = true ↔ h.Held n := by
  constructor
  · intro hsome
    obtain ⟨t, ht⟩ := Option.isSome_iff_exists.1 hsome
    obtain ⟨hticket, hunused, hnot⟩ := responder?_eq_some_iff.1 ht
    obtain ⟨hsent, hlost, hresponded⟩ := (ha.requests.shows n t hticket).unused_iff.1 hunused
    rw [ha.queue.mem_queue_iff] at hnot
    -- It would be in the queue otherwise, or it would have been lost with the listener.
    have hreceived : h.Received n := by
      by_contra hreceived
      by_cases hclosed : h.Closed
      · exact hlost (.inr ((ha.queue.left n).2 ⟨hclosed, hsent, hreceived⟩))
      · exact hnot ⟨hsent, hreceived, hclosed⟩
    exact ⟨hreceived, hresponded, fun hd => hlost (.inl hd)⟩
  · rintro ⟨hreceived, hresponded, hdropped⟩
    have hsent := ha.queue.sent_of_received hreceived
    have hlost : ¬ h.Lost n := by
      rintro (hd | hleft)
      · exact hdropped hd
      · exact ((ha.queue.left n).1 hleft).2.2 hreceived
    obtain ⟨q, hmem⟩ := hsent
    obtain ⟨t, hticket, -⟩ := ha.queue.ticket_of_sent hmem
    have hunused := (ha.requests.shows n t hticket).unused_iff.2 ⟨⟨q, hmem⟩, hlost, hresponded⟩
    have hnot : n ∉ c.queue := fun hn => (ha.queue.mem_queue_iff.1 hn).2.1 hreceived
    rw [responder?_eq_some_iff.2 ⟨hticket, hunused, hnot⟩]
    rfl

/-! ## Requesters -/

theorem KnowsRequesters.concat (hr : c.KnowsRequesters h) (hc : c'.requesters = c.requesters)
    (hcloned : ∀ i j, e ≠ .cloned i j) (hdropped : ∀ i, e ≠ .requesterDropped i) :
    c'.KnowsRequesters (h ++ [e]) where
  made i := by simp [hc, hr.made, hcloned]
  dropped i := by simpa [hcloned, hdropped] using hr.dropped i
  alive i := by
    have halive : c'.isAlive i = c.isAlive i := by
      rw [Bool.eq_iff_iff, isAlive_iff, isAlive_iff, hc]
    simp [halive, hr.alive, Log.Alive, hcloned, hdropped]

theorem KnowsRequesters.clone (hr : c.KnowsRequesters h) {i j : Nat}
    (hc : c.clone i = some (j, c')) : c'.KnowsRequesters (h ++ [.cloned i j]) := by
  obtain ⟨-, rfl, rfl⟩ := clone_eq_some hc
  have hnew : ¬ h.Made c.requesters.length := fun hmade =>
    Nat.lt_irrefl _ ((hr.made _).2 hmade)
  refine ⟨fun k => ?_, fun k => ?_, fun k => ?_⟩
  · rw [Log.made_concat, ← hr.made, requesters_addRequester, List.length_append,
      List.length_singleton, Nat.lt_succ_iff_lt_or_eq]
    simp [eq_comm]
  · simpa using fun hk => .inl (hr.dropped k hk)
  · have hdropped : ¬ h.RequesterDropped c.requesters.length := fun hd => hnew (hr.dropped _ hd)
    rw [isAlive_iff, requesters_addRequester]
    rcases Nat.lt_trichotomy k c.requesters.length with hk | rfl | hk
    · have hne : c.requesters.length ≠ k := by omega
      rw [List.getElem?_append_left hk, ← isAlive_iff, hr.alive]
      simp [Log.Alive, hne]
    · simp [Log.Alive, hdropped]
    · have hne : c.requesters.length ≠ k := by omega
      have hmade : ¬ h.Made k := fun hmade => Nat.lt_asymm hk ((hr.made k).2 hmade)
      have hlength : (c.requesters ++ [true]).length ≤ k := by
        rw [List.length_append]
        exact hk
      rw [List.getElem?_eq_none hlength]
      simp [Log.Alive, hmade, hne]

theorem KnowsRequesters.drop (hr : c.KnowsRequesters h) {i : Nat} (hi : c.isAlive i = true) :
    (c.dropRequester i).KnowsRequesters (h ++ [.requesterDropped i]) := by
  refine ⟨fun k => ?_, fun k => ?_, fun k => ?_⟩
  · simp [hr.made]
  · rw [Log.requesterDropped_concat, Log.made_concat]
    rintro (hk | hk)
    · exact .inl (hr.dropped k hk)
    · cases hk
      exact .inl ((hr.alive i).1 hi).1
  · rw [isAlive_iff, requesters_dropRequester, List.getElem?_set]
    by_cases hk : i = k
    · subst hk
      rw [if_pos rfl]
      split <;> simp [Log.Alive]
    · rw [if_neg hk, ← isAlive_iff, hr.alive]
      simp [Log.Alive, hk]

/-! ## The queue -/

theorem KnowsQueue.concat (hq : c.KnowsQueue h) (hlistening : c'.listening = c.listening)
    (hqueue : c'.queue = c.queue) (hqueries : c'.tickets.map (·.query) = c.tickets.map (·.query))
    (hstart : e.start? = none) (hdelivery : e.delivery? = none) (hdropped : e ≠ .listenerDropped) :
    c'.KnowsQueue (h ++ [e]) where
  listening := by simp [hlistening, hq.listening, hdropped]
  queries := by simp [hqueries, hq.queries, hstart]
  split := by simpa [hlistening, hqueue, hdelivery, Log.sent_concat_of_none hstart] using hq.split
  left n := by
    simp [hq.left, hdropped, Log.sent_concat_iff, hstart, Log.received_concat_iff, hdelivery]

theorem KnowsQueue.start (hq : c.KnowsQueue h) {i : Nat} {q : I.Query} {p : Poll (I.Answer q)}
    (hs : c.start i q = some (p, c')) : c'.KnowsQueue (h ++ [.started i q p]) := by
  obtain ⟨rest, hsplit, hqueue⟩ := hq.split
  rcases (start_cases hs).2 with ⟨hlistening, rfl, rfl⟩ | ⟨hlistening, rfl, rfl⟩
  · obtain ⟨hclosed, hleft⟩ := hq.of_listening hlistening
    refine ⟨?_, ?_, ⟨rest ++ [(c.tickets.length, q)], ?_, ?_⟩, fun n => ?_⟩
    · simp [hlistening, hclosed]
    · simp [hq.queries, Event.start?]
    · simp [Log.sent_concat, hsplit, Event.start?, Event.delivery?, Log.sent?, hq.length_eq]
    · simp [hqueue, hlistening]
    · simp [hclosed, hleft]
  · have hsent : Log.sent (h ++ [.started i q (.ready (.error .closed))]) = h.sent := by
      simp [Log.sent_concat, Event.start?, Log.sent?]
    refine ⟨?_, ?_, ⟨rest, ?_, ?_⟩, fun n => ?_⟩
    · simpa using hq.listening
    · simp [hq.queries, Event.start?]
    · simp [hsent, hsplit, Event.delivery?]
    · exact hqueue
    · simp [hq.left, Log.sent_concat_iff, Log.received_concat_iff, Event.start?, Event.delivery?]

/-- The listener gets the oldest request in the queue. -/
theorem KnowsQueue.next_cases (hq : c.KnowsQueue h) :
    c.queue = [] ∧ c.next = (if c.hasRequesters then .pending else .ended, c) ∨
      ∃ n q rest, c.queue = n :: rest.map (·.1) ∧ h.sent = h.received ++ (n, q) :: rest ∧
        c.next = (.request n q, c.setQueue (rest.map (·.1))) := by
  cases hqueue : c.queue with
  | nil =>
    exact .inl ⟨rfl, next_of_nil hqueue⟩
  | cons n queue =>
    obtain ⟨rest, hsplit, hrest⟩ := hq.split
    rw [hqueue] at hrest
    cases hlistening : c.listening with
    | false => simp [hlistening] at hrest
    | true =>
      rw [hlistening, if_pos rfl] at hrest
      cases rest with
      | nil => cases hrest
      | cons x rest =>
        obtain ⟨m, q⟩ := x
        obtain ⟨rfl, rfl⟩ := List.cons.inj hrest
        have hmem : (n, q) ∈ h.sent := hsplit ▸ List.mem_append_right _ List.mem_cons_self
        obtain ⟨t, ht, rfl⟩ := hq.ticket_of_sent hmem
        exact .inr ⟨_, _, rest, rfl, hsplit, next_of_cons hqueue ht⟩

theorem KnowsQueue.next (hq : c.KnowsQueue h) (hlistening : c.listening = true) :
    c.next.2.KnowsQueue (h ++ [.received c.next.1]) := by
  obtain ⟨hclosed, hleft⟩ := hq.of_listening hlistening
  rcases hq.next_cases with ⟨-, hnext⟩ | ⟨n, q, rest, -, hsplit, hnext⟩
  · have hdelivery : (Event.received c.next.1).delivery? = none := by
      rw [hnext]
      cases c.hasRequesters <;> rfl
    refine hq.concat ?_ ?_ ?_ rfl hdelivery nofun <;> rw [hnext]
  · rw [hnext]
    refine ⟨?_, ?_, ⟨rest, ?_, ?_⟩, fun n => ?_⟩
    · simp [hlistening, hclosed]
    · simp [hq.queries, Event.start?]
    · simp [Log.sent_concat, Event.start?, Event.delivery?, hsplit]
    · simp [hlistening]
    · simp [hclosed, hleft]

theorem getElem?_foldl_modify {α : Type} {f : α → α} (hf : ∀ a, f (f a) = f a) (ns : List Nat)
    (l : List α) (n : Nat) : (ns.foldl (fun l m => l.modify m f) l)[n]? =
      l[n]?.map fun a => if n ∈ ns then f a else a := by
  induction ns generalizing l with
  | nil => simp
  | cons m ns ih =>
    rw [List.foldl_cons, ih, List.getElem?_modify]
    cases l[n]? with
    | none => rfl
    | some a =>
      by_cases hm : m = n
      · subst hm
        by_cases hmem : m ∈ ns <;> simp [hmem, hf]
      · simp [hm, Ne.symm hm]

/-- The requests in the queue are dropped with the listener, and no other ones. -/
theorem getElem?_dropListener (c : Channel I) (n : Nat) : c.dropListener.tickets[n]? =
    c.tickets[n]?.map fun t => if n ∈ c.queue then t.lose else t :=
  getElem?_foldl_modify (f := Ticket.lose) (fun _ => rfl) _ _ _

theorem map_query_dropListener (c : Channel I) :
    c.dropListener.tickets.map (·.query) = c.tickets.map (·.query) := by
  refine List.ext_getElem? fun n => ?_
  rw [List.getElem?_map, List.getElem?_map, getElem?_dropListener, Option.map_map]
  cases c.tickets[n]? with
  | none => rfl
  | some t => by_cases hn : n ∈ c.queue <;> simp [hn]

theorem KnowsQueue.dropListener (hq : c.KnowsQueue h) (hlistening : c.listening = true) :
    c.dropListener.KnowsQueue (h ++ [.listenerDropped]) := by
  obtain ⟨hclosed, hleft⟩ := hq.of_listening hlistening
  obtain ⟨rest, hsplit, -⟩ := hq.split
  refine ⟨?_, ?_, ⟨rest, ?_, ?_⟩, fun n => ?_⟩
  · simp
  · simp [map_query_dropListener, hq.queries, Event.start?]
  · simp [Log.sent_concat, Event.start?, Event.delivery?, hsplit]
  · simp
  · simp [hleft, Log.Queued, hclosed, Log.sent_concat_iff, Log.received_concat_iff, Event.start?,
      Event.delivery?]

/-! ## The tickets -/

theorem Log.Shows.concat (hs : h.Shows n t) (hsent : Log.Sent (h ++ [e]) n ↔ h.Sent n)
    (hlost : Log.Lost (h ++ [e]) n ↔ h.Lost n) (he : e.request? ≠ some n) :
    Log.Shows (h ++ [e]) n t := by
  have habandoned : e ≠ .abandoned n := fun heq => he (heq ▸ rfl)
  have hpolled : ∀ r, e ≠ .polled n r := fun r heq => he (heq ▸ rfl)
  have hresponded : ∀ f b, e ≠ .responded n f b := fun f b heq => he (heq ▸ rfl)
  refine ⟨?_, fun a => ?_, ?_, ?_⟩
  · simp [hs.waiting, Log.Waits, hsent, habandoned, hpolled]
  · simp [hs.answered, hresponded]
  · rw [hs.dropped, hsent, hlost]
  · simpa [hpolled] using hs.finished

/-- What happens to one request does not concern any other one. -/
theorem Log.Shows.other (hs : h.Shows n t) {m : Nat} (he : e.request? = some m) (hm : m ≠ n) :
    Log.Shows (h ++ [e]) n t := by
  have hne : e.request? ≠ some n := by simpa [he] using hm
  obtain ⟨hstart, -, hclosed, -, -⟩ := Event.of_request? he
  have hdropped : e ≠ .responderDropped n := fun heq => hne (heq ▸ rfl)
  refine hs.concat ?_ ?_ hne
  · simp [Log.sent_concat_iff, hstart]
  · simp [Log.lost_concat, hdropped, hclosed]

theorem Log.Responded.of_concat (hn : Log.Responded (h ++ [e]) n) (he : e.request? ≠ some n) :
    h.Responded n := by
  rcases Log.responded_concat.1 hn with hn | ⟨f, b, rfl⟩
  · exact hn
  · exact absurd rfl he

theorem Log.Received.concat (hn : h.Received n) (e : Event I) : Log.Received (h ++ [e]) n :=
  Log.received_concat_iff.2 (.inl hn)

theorem KnowsRequests.known_concat (hr : c.KnowsRequests h)
    (hlength : c.tickets.length ≤ c'.tickets.length)
    (he : ∀ n, e.request? = some n → n < c'.tickets.length) :
    ∀ e' ∈ h ++ [e], ∀ n, e'.request? = some n → n < c'.tickets.length := by
  intro e' hmem n hn
  rcases List.mem_append.1 hmem with hmem | hmem
  · exact Nat.lt_of_lt_of_le (hr.known e' hmem n hn) hlength
  · cases List.mem_singleton.1 hmem
    exact he n hn

/-- The event `e` is about no request. -/
theorem KnowsRequests.concat (hr : c.KnowsRequests h) (htickets : c'.tickets = c.tickets)
    (hstart : e.start? = none) (hclosed : e ≠ .listenerDropped) (he : e.request? = none) :
    c'.KnowsRequests (h ++ [e]) := by
  have hne : ∀ n, e.request? ≠ some n := by simp [he]
  have hlength : c.tickets.length ≤ c'.tickets.length := htickets ▸ Nat.le_refl _
  refine ⟨hr.known_concat hlength fun n hn => absurd hn (hne n), fun n hn => ?_, fun n t ht => ?_⟩
  · exact (hr.responded n (hn.of_concat (hne n))).concat e
  · rw [htickets] at ht
    refine (hr.shows n t ht).concat ?_ ?_ (hne n)
    · simp [Log.sent_concat_iff, hstart]
    · have hdropped : e ≠ .responderDropped n := fun heq => hne n (heq ▸ rfl)
      simp [Log.lost_concat, hdropped, hclosed]

/-- The event `e` is about the request `n` alone, whose ticket changes by `f`. -/
theorem KnowsRequests.modify (hr : c.KnowsRequests h) {f : Ticket I → Ticket I}
    (he : e.request? = some n) (ht : c.tickets[n]? = some t) (hs : Log.Shows (h ++ [e]) n (f t))
    (hreceived : Log.Responded (h ++ [e]) n → h.Received n) :
    (c.modify n f).KnowsRequests (h ++ [e]) := by
  have hlength : (c.modify n f).tickets.length = c.tickets.length := List.length_modify ..
  refine ⟨hr.known_concat (Nat.le_of_eq hlength.symm) fun m hm => ?_, fun m hm => ?_,
    fun m u hu => ?_⟩
  · cases he.symm.trans hm
    rw [hlength]
    exact (List.getElem?_eq_some_iff.1 ht).1
  · by_cases hmn : m = n
    · subst hmn
      exact (hreceived hm).concat e
    · have hne : e.request? ≠ some m := by simpa [he] using Ne.symm hmn
      exact (hr.responded m (hm.of_concat hne)).concat e
  · change (c.tickets.modify n f)[m]? = some u at hu
    rw [List.getElem?_modify] at hu
    by_cases hmn : n = m
    · subst hmn
      rw [ht] at hu
      simp only [if_true, Option.map_eq_map, Option.map_some, Option.some.injEq] at hu
      exact hu ▸ hs
    · simp only [hmn, if_false, Option.map_eq_map, Option.map_id'] at hu
      exact (hr.shows m u hu).other he hmn

/-! ## Requests and responders -/

theorem modify_id (c : Channel I) (n : Nat) : c.modify n id = c := by
  unfold modify
  rw [List.modify_id]

theorem KnowsRequests.poll (hr : c.KnowsRequests h) {r : (q : I.Query) × Poll (I.Answer q)}
    (hp : c.poll n = some (r, c')) : c'.KnowsRequests (h ++ [.polled n r]) := by
  obtain ⟨t, ht, hwaiting, rfl, hc'⟩ := poll_eq_some hp
  have hs := hr.shows n t ht
  have hsent (r : (q : I.Query) × Poll (I.Answer q)) :
      Log.Sent (h ++ [.polled n r]) n ↔ h.Sent n := by simp [Log.sent_concat_iff, Event.start?]
  have hlost (r : (q : I.Query) × Poll (I.Answer q)) :
      Log.Lost (h ++ [.polled n r]) n ↔ h.Lost n := by simp [Log.lost_concat]
  have hresponded : Log.Responded (h ++ [.polled n ⟨t.query, t.slot.poll⟩]) n → h.Received n := by
    simpa using hr.responded n
  rcases hc' with ⟨hslot, rfl⟩ | ⟨hslot, rfl⟩
  · -- The request is not finished, and nothing changes.
    rw [← modify_id c' n]
    refine hr.modify rfl ht ⟨?_, fun (a : I.Answer t.query) => ?_, ?_, ?_⟩ hresponded
    · simp [hs.waiting, Log.Waits, hsent, hslot, Slot.poll]
    · simp [hs.answered]
    · simp [hs.dropped, hsent, hlost]
    · simpa [hslot, Slot.poll] using hs.finished
  · refine hr.modify rfl ht ⟨?_, fun (a : I.Answer t.query) => ?_, ?_, fun _ => hslot⟩ hresponded
    · have hfinished : ∃ o, t.slot.poll = .ready o := by
        cases hcases : t.slot with
        | unused => exact absurd hcases hslot
        | answered a => exact ⟨_, rfl⟩
        | dropped => exact ⟨_, rfl⟩
      obtain ⟨o, ho⟩ := hfinished
      simp [Log.Waits, ho]
    · simp [hs.answered]
    · simp [hs.dropped, hsent, hlost]

theorem KnowsRequests.abandon (hr : c.KnowsRequests h) (hn : c.isWaiting n = true) :
    (c.abandon n).KnowsRequests (h ++ [.abandoned n]) := by
  cases ht : c.tickets[n]? with
  | none => simp [isWaiting, ht] at hn
  | some t =>
    have hs := hr.shows n t ht
    refine hr.modify rfl ht ⟨?_, fun (a : I.Answer t.query) => ?_, ?_, ?_⟩ ?_
    · simp [Log.Waits]
    · simp [hs.answered]
    · simp [hs.dropped, Log.lost_concat, Log.sent_concat_iff, Event.start?]
    · simpa using hs.finished
    · simpa using hr.responded n

theorem Agrees.respond (ha : c.Agrees h) {answer : (q : I.Query) → I.Answer q} {heard : Bool}
    (hc : c.respond n answer = some (heard, c')) :
    c'.KnowsRequests (h ++ [.responded n answer heard]) := by
  obtain ⟨t, ht, rfl, rfl⟩ := respond_eq_some hc
  have hheld := ha.isSome_responder?_iff.1 (Option.isSome_of_eq_some ht)
  obtain ⟨hticket, hunused, -⟩ := responder?_eq_some_iff.1 ht
  have hs := ha.requests.shows n t hticket
  obtain ⟨hsent, hlost, hresponded⟩ := hs.unused_iff.1 hunused
  have hgiven := Log.not_given hresponded t.query
  refine ha.requests.modify rfl hticket ⟨?_, fun (a : I.Answer t.query) => ?_, ?_, fun _ => nofun⟩ fun _ => hheld.1
  · simp [hs.waiting, Log.Waits, Log.sent_concat_iff, Event.start?]
  · simp [hgiven]
  · simp [Log.lost_concat, hlost, Log.sent_concat_iff, hsent]

theorem Agrees.dropResponder (ha : c.Agrees h) (hn : (c.responder? n).isSome = true) :
    (c.dropResponder n).KnowsRequests (h ++ [.responderDropped n]) := by
  have hheld := ha.isSome_responder?_iff.1 hn
  obtain ⟨t, ht⟩ := Option.isSome_iff_exists.1 hn
  obtain ⟨hticket, hunused, -⟩ := responder?_eq_some_iff.1 ht
  have hs := ha.requests.shows n t hticket
  obtain ⟨-, -, hresponded⟩ := hs.unused_iff.1 hunused
  have hgiven := Log.not_given hresponded t.query
  rw [dropResponder_eq hn]
  refine ha.requests.modify rfl hticket ⟨?_, fun (a : I.Answer t.query) => ?_, ?_, fun _ => nofun⟩ fun _ => hheld.1
  · simp [hs.waiting, Log.Waits, Log.sent_concat_iff, Event.start?]
  · simp [hgiven]
  · simp [Log.lost_concat]

/-- The ticket of a request that has just been started is as the log says. -/
theorem Agrees.shows_started (ha : c.Agrees h) {i : Nat} {q : I.Query} {p : Poll (I.Answer q)}
    (hs : c.start i q = some (p, c')) : ∃ t, c'.tickets = c.tickets ++ [t] ∧
      Log.Shows (h ++ [.started i q p]) c.tickets.length t := by
  have hlength := ha.queue.length_eq
  -- Nothing in the log is about the new number.
  have hunknown : ∀ e ∈ h, e.request? ≠ some c.tickets.length := fun e he heq =>
    Nat.lt_irrefl _ (ha.requests.known e he _ heq)
  have habandoned : ¬ h.Abandoned c.tickets.length := fun hn => hunknown _ hn rfl
  have hfinished : ¬ h.Finished c.tickets.length := by
    rintro ⟨q, o, hn⟩
    exact hunknown _ hn rfl
  have hgiven : ∀ q a, ¬ h.Given c.tickets.length q a := by
    rintro q a ⟨f, b, hn, -⟩
    exact hunknown _ hn rfl
  have hsent : ¬ h.Sent c.tickets.length := fun hn => Nat.lt_irrefl _ (hlength ▸ hn.lt)
  have hlost : ¬ h.Lost c.tickets.length := by
    rintro (hn | hn)
    · exact hunknown _ hn rfl
    · exact hsent ((ha.queue.left _).1 hn).2.1
  rcases (start_cases hs).2 with ⟨-, rfl, rfl⟩ | ⟨-, rfl, rfl⟩
  · have hsent' : Log.Sent (h ++ [.started i q .pending]) c.tickets.length :=
      Log.sent_concat_iff.2 (.inr ⟨q, rfl, hlength⟩)
    refine ⟨_, rfl, ?_, fun a => ?_, ?_, ?_⟩
    · simp [Log.Waits, hsent', habandoned, hfinished]
    · simp [hgiven]
    · simp [hsent', Log.lost_concat, hlost]
    · simp [hfinished]
  · have hsent' : ¬ Log.Sent (h ++ [.started i q (.ready (.error .closed))]) c.tickets.length := by
      simp [hsent, Log.sent_concat_iff, Event.start?]
    refine ⟨_, rfl, ?_, fun a => ?_, ?_, fun _ => nofun⟩
    · simp [Log.Waits, hsent']
    · simp [hgiven]
    · simp [hsent']

theorem Agrees.start (ha : c.Agrees h) {i : Nat} {q : I.Query} {p : Poll (I.Answer q)}
    (hs : c.start i q = some (p, c')) : c'.KnowsRequests (h ++ [.started i q p]) := by
  have hlength := ha.queue.length_eq
  obtain ⟨u, htickets, hu⟩ := ha.shows_started hs
  refine ⟨ha.requests.known_concat ?_ nofun, fun n hn => ?_, fun n t ht => ?_⟩
  · rw [htickets, List.length_append]
    exact Nat.le_succ _
  · exact (ha.requests.responded n (hn.of_concat nofun)).concat _
  · rw [htickets, List.getElem?_append] at ht
    split at ht
    case isTrue hn =>
      refine (ha.requests.shows n t ht).concat ?_ ?_ nofun
      · have hne : n ≠ (Log.starts h).length := by omega
        simp [Log.sent_concat_iff, hne]
      · simp [Log.lost_concat]
    case isFalse hn =>
      rw [List.getElem?_singleton] at ht
      split at ht
      case isTrue hzero =>
        cases ht
        obtain rfl : n = c.tickets.length := by omega
        exact hu
      case isFalse => cases ht

theorem Agrees.dropListener (ha : c.Agrees h) :
    c.dropListener.KnowsRequests (h ++ [.listenerDropped]) := by
  have hlength : c.dropListener.tickets.length = c.tickets.length := by
    simpa using congrArg List.length (map_query_dropListener c)
  refine ⟨ha.requests.known_concat (Nat.le_of_eq hlength.symm) nofun, fun n hn => ?_,
    fun n t ht => ?_⟩
  · exact (ha.requests.responded n (hn.of_concat nofun)).concat _
  · rw [getElem?_dropListener] at ht
    obtain ⟨u, hu, rfl⟩ := Option.map_eq_some_iff.1 ht
    have hs := ha.requests.shows n u hu
    by_cases hn : n ∈ c.queue
    · have hqueued := ha.queue.mem_queue_iff.1 hn
      -- Nobody has had its responder, so it cannot have been answered.
      have hresponded : ¬ h.Responded n := fun hr => hqueued.2.1 (ha.requests.responded n hr)
      have hgiven := Log.not_given hresponded u.query
      rw [if_pos hn]
      refine ⟨?_, fun (a : I.Answer u.query) => ?_, ?_, fun _ => nofun⟩
      · simp [hs.waiting, Log.Waits, Log.sent_concat_iff, Event.start?]
      · simp [hgiven]
      · simp [Log.lost_concat, hqueued]
    · rw [if_neg hn]
      have hqueued : ¬ h.Queued n := fun hq => hn (ha.queue.mem_queue_iff.2 hq)
      refine hs.concat ?_ ?_ nofun
      · simp [Log.sent_concat_iff, Event.start?]
      · simp [Log.lost_concat, hqueued]

/-! ## Everything that can happen -/

/-- The requesters and the queue have nothing to do with what happens to one request. -/
theorem Agrees.modify (ha : c.Agrees h) {f : Ticket I → Ticket I} (hf : ∀ t, (f t).query = t.query)
    (he : e.request? = some n) (hr : (c.modify n f).KnowsRequests (h ++ [e])) :
    (c.modify n f).Agrees (h ++ [e]) := by
  have hqueries : (c.modify n f).tickets.map (·.query) = c.tickets.map (·.query) :=
    map_modify_of_eq hf c.tickets n
  obtain ⟨hstart, hdelivery, hclosed, hcloned, hdropped⟩ := Event.of_request? he
  exact ⟨ha.requesters.concat rfl hcloned hdropped,
    ha.queue.concat rfl rfl hqueries hstart hdelivery hclosed, hr⟩

theorem Agrees.happens (ha : c.Agrees h) (he : c.Happens e c') : c'.Agrees (h ++ [e]) := by
  cases he with
  | cloned hc =>
    obtain ⟨-, rfl, rfl⟩ := clone_eq_some hc
    exact ⟨ha.requesters.clone hc, ha.queue.concat rfl rfl rfl rfl rfl nofun,
      ha.requests.concat rfl rfl nofun rfl⟩
  | requesterDropped hi =>
    exact ⟨ha.requesters.drop hi, ha.queue.concat rfl rfl rfl rfl rfl nofun,
      ha.requests.concat rfl rfl nofun rfl⟩
  | started hs =>
    have hrequesters : c'.requesters = c.requesters := by
      rcases (start_cases hs).2 with ⟨-, -, rfl⟩ | ⟨-, -, rfl⟩ <;> rfl
    exact ⟨ha.requesters.concat hrequesters nofun nofun, ha.queue.start hs, ha.start hs⟩
  | @polled n r _ hpoll =>
    have hrequests := ha.requests.poll hpoll
    obtain ⟨t, -, -, -, ⟨-, rfl⟩ | ⟨-, rfl⟩⟩ := poll_eq_some hpoll
    · rw [← modify_id c' n] at hrequests ⊢
      exact ha.modify (fun _ => rfl) rfl hrequests
    · exact ha.modify (fun _ => rfl) rfl hrequests
  | abandoned hn => exact ha.modify (fun _ => rfl) rfl (ha.requests.abandon hn)
  | received hlistening =>
    have hsame : c.next.2.requesters = c.requesters ∧ c.next.2.tickets = c.tickets := by
      rcases ha.queue.next_cases with ⟨-, hnext⟩ | ⟨n, q, rest, -, -, hnext⟩ <;> rw [hnext] <;>
        exact ⟨rfl, rfl⟩
    exact ⟨ha.requesters.concat hsame.1 nofun nofun, ha.queue.next hlistening,
      ha.requests.concat hsame.2 rfl nofun rfl⟩
  | responded hrespond =>
    have hrequests := ha.respond hrespond
    obtain ⟨t, -, -, rfl⟩ := respond_eq_some hrespond
    exact ha.modify (fun _ => rfl) rfl hrequests
  | responderDropped hn =>
    have hrequests := ha.dropResponder hn
    rw [dropResponder_eq hn] at hrequests ⊢
    exact ha.modify (fun _ => rfl) rfl hrequests
  | listenerDropped hlistening =>
    exact ⟨ha.requesters.concat rfl nofun nofun, ha.queue.dropListener hlistening, ha.dropListener⟩

/-- What was done with a new channel agrees with what has become of it. -/
theorem Agrees.performAll (ha : c.Agrees h) (os : List (Operation I)) :
    (c.performAll os).2.Agrees (h ++ (c.performAll os).1) := by
  induction os generalizing c h with
  | nil =>
    rw [show h ++ (c.performAll []).1 = h from List.append_nil h]
    exact ha
  | cons o os ih =>
    unfold Channel.performAll
    cases hp : c.perform o with
    | none => exact ih ha
    | some r =>
      obtain ⟨e, c'⟩ := r
      simpa using ih (ha.happens (happens_of_perform hp))

end Channel

end ShieldedWallet
