import ShieldedWallet.Channel.Basic

/-!
# Operations on a channel

What each operation on a channel returns and what it leaves, said about the requesters, the queue and
the requests. Everything else about channels follows from this, and does not look at what a channel is
made of.
-/

namespace ShieldedWallet

/-- What a request finds in its slot when it is polled. -/
def Slot.poll {α : Type} : Slot α → Poll α
  | .unused => .pending
  | .answered a => .ready (.ok a)
  | .dropped => .ready (.error .dropped)

namespace Oneshot

variable {α : Type}

@[simp] theorem slot_new : (new : Oneshot α).slot = .unused := rfl

@[simp] theorem waiting_new : (new : Oneshot α).waiting = true := rfl

end Oneshot

namespace Ticket

variable {I : Interface} (t : Ticket I) (f : (q : I.Query) → I.Answer q)

@[simp] theorem slot_mk (q : I.Query) (o : Oneshot (I.Answer q)) : (mk q o).slot = o.slot := rfl

@[simp] theorem waiting_mk (q : I.Query) (o : Oneshot (I.Answer q)) :
    (mk q o).waiting = o.waiting := rfl

@[simp] theorem query_respond : (t.respond f).query = t.query := rfl

@[simp] theorem query_lose : t.lose.query = t.query := rfl

@[simp] theorem query_leave : t.leave.query = t.query := rfl

@[simp] theorem slot_respond : (t.respond f).slot = .answered (f t.query) := rfl

@[simp] theorem slot_lose : t.lose.slot = .dropped := rfl

@[simp] theorem slot_leave : t.leave.slot = t.slot := rfl

@[simp] theorem waiting_respond : (t.respond f).waiting = t.waiting := rfl

@[simp] theorem waiting_lose : t.lose.waiting = t.waiting := rfl

@[simp] theorem waiting_leave : t.leave.waiting = false := rfl

end Ticket

namespace Channel

variable {I : Interface} {c c' : Channel I} {n i : Nat}

/-- The channel with one more requester. -/
def addRequester (c : Channel I) : Channel I :=
  { c with requests := { c.requests with senders := c.requesters ++ [true] } }

/-- The channel with the requests `ns` in its queue. -/
def setQueue (c : Channel I) (ns : List Nat) : Channel I :=
  { c with requests := { c.requests with items := ns } }

/-- The channel with one more request. -/
def push (c : Channel I) (t : Ticket I) : Channel I := { c with tickets := c.tickets ++ [t] }

section Fields

variable (c) (ns : List Nat) (t : Ticket I)

@[simp] theorem requesters_new : (new : Channel I).requesters = [true] := rfl

@[simp] theorem queue_new : (new : Channel I).queue = [] := rfl

@[simp] theorem listening_new : (new : Channel I).listening = true := rfl

@[simp] theorem requesters_addRequester :
    c.addRequester.requesters = c.requesters ++ [true] := rfl

@[simp] theorem requesters_setQueue : (c.setQueue ns).requesters = c.requesters := rfl

@[simp] theorem queue_setQueue : (c.setQueue ns).queue = ns := rfl

@[simp] theorem listening_setQueue : (c.setQueue ns).listening = c.listening := rfl

@[simp] theorem tickets_setQueue : (c.setQueue ns).tickets = c.tickets := rfl

@[simp] theorem requesters_push : (c.push t).requesters = c.requesters := rfl

@[simp] theorem queue_push : (c.push t).queue = c.queue := rfl

@[simp] theorem listening_push : (c.push t).listening = c.listening := rfl

@[simp] theorem tickets_push : (c.push t).tickets = c.tickets ++ [t] := rfl

@[simp] theorem requesters_dropRequester :
    (c.dropRequester i).requesters = c.requesters.set i false := rfl

@[simp] theorem queue_dropListener : c.dropListener.queue = [] := rfl

@[simp] theorem listening_dropListener : c.dropListener.listening = false := rfl

end Fields

/-! ## Requesters -/

theorem isAlive_iff : c.isAlive i = true ↔ c.requesters[i]? = some true := by
  show c.requesters.getD i false = true ↔ _
  rw [List.getD_eq_getElem?_getD]
  cases c.requesters[i]? <;> simp

theorem clone_of_isAlive (hi : c.isAlive i = true) :
    c.clone i = some (c.requesters.length, c.addRequester) := by
  have hi : c.requests.isAlive i = true := hi
  simp [clone, Queue.clone, hi, addRequester, requesters]

theorem clone_of_not_isAlive (hi : c.isAlive i = false) : c.clone i = none := by
  have hi : c.requests.isAlive i = false := hi
  simp [clone, Queue.clone, hi]

theorem clone_eq_some {j : Nat} (hc : c.clone i = some (j, c')) :
    c.isAlive i = true ∧ j = c.requesters.length ∧ c' = c.addRequester := by
  cases hi : c.isAlive i with
  | false =>
    rw [clone_of_not_isAlive hi] at hc
    cases hc
  | true =>
    rw [clone_of_isAlive hi] at hc
    cases hc
    exact ⟨rfl, rfl, rfl⟩

theorem start_of_not_isAlive (hi : c.isAlive i = false) (q : I.Query) : c.start i q = none := by
  have hi : c.requests.isAlive i = false := hi
  have hsend (n : Nat) : c.requests.send i n = none := if_pos (by simp [hi])
  unfold start
  rw [hsend]

theorem start_of_listening (hi : c.isAlive i = true) (hl : c.listening = true) (q : I.Query) :
    c.start i q =
      some (.pending, (c.setQueue (c.queue ++ [c.tickets.length])).push ⟨q, .new⟩) := by
  have hi : c.requests.isAlive i = true := hi
  have hl : c.requests.receiving = true := hl
  simp [start, Queue.send, hi, hl, setQueue, push]
  rfl

theorem start_of_not_listening (hi : c.isAlive i = true) (hl : c.listening = false) (q : I.Query) :
    c.start i q = some (.ready (.error .closed), c.push ⟨q, .dropped, false⟩) := by
  have hi : c.requests.isAlive i = true := hi
  have hl : c.requests.receiving = false := hl
  simp [start, Queue.send, hi, hl, push]
  rfl

/-- A request is sent if somebody listens. -/
theorem start_cases {q : I.Query} {p : Poll (I.Answer q)} (hs : c.start i q = some (p, c')) :
    c.isAlive i = true ∧
      (c.listening = true ∧ p = .pending ∧
          c' = (c.setQueue (c.queue ++ [c.tickets.length])).push ⟨q, .new⟩ ∨
        c.listening = false ∧ p = .ready (.error .closed) ∧ c' = c.push ⟨q, .dropped, false⟩) := by
  cases hi : c.isAlive i with
  | false =>
    rw [start_of_not_isAlive hi] at hs
    cases hs
  | true =>
    cases hl : c.listening with
    | true =>
      rw [start_of_listening hi hl] at hs
      cases hs
      exact ⟨rfl, .inl ⟨rfl, rfl, rfl⟩⟩
    | false =>
      rw [start_of_not_listening hi hl] at hs
      cases hs
      exact ⟨rfl, .inr ⟨rfl, rfl, rfl⟩⟩

/-! ## Requests -/

theorem poll_of_waiting {t : Ticket I} (ht : c.tickets[n]? = some t) (hw : t.waiting = true) :
    c.poll n = some (⟨t.query, t.slot.poll⟩, match t.slot with
      | .unused => c
      | _ => c.abandon n) := by
  have hreceive : t.reply.receive = some t.slot := if_pos hw
  unfold poll
  simp only [ht, hreceive]
  cases t.slot <;> rfl

theorem poll_of_not_waiting (h : ∀ t, c.tickets[n]? = some t → t.waiting = false) :
    c.poll n = none := by
  unfold poll
  cases ht : c.tickets[n]? with
  | none => rfl
  | some t =>
    have hreceive : t.reply.receive = none := if_neg (by simp [h t ht])
    simp only [hreceive]

/-- A request that waits is polled. It is finished once its responder has been used or dropped. -/
theorem poll_eq_some {r : (q : I.Query) × Poll (I.Answer q)} (hp : c.poll n = some (r, c')) :
    ∃ t, c.tickets[n]? = some t ∧ t.waiting = true ∧ r = ⟨t.query, t.slot.poll⟩ ∧
      (t.slot = .unused ∧ c' = c ∨ t.slot ≠ .unused ∧ c' = c.abandon n) := by
  cases ht : c.tickets[n]? with
  | none =>
    rw [poll_of_not_waiting (by simp [ht])] at hp
    cases hp
  | some t =>
    cases hw : t.waiting with
    | false =>
      rw [poll_of_not_waiting (by simp [ht, hw])] at hp
      cases hp
    | true =>
      rw [poll_of_waiting ht hw] at hp
      refine ⟨t, rfl, hw, ?_⟩
      cases hslot : t.slot <;> rw [hslot] at hp <;> cases hp
      · exact ⟨rfl, .inl ⟨rfl, rfl⟩⟩
      · exact ⟨rfl, .inr ⟨nofun, rfl⟩⟩
      · exact ⟨rfl, .inr ⟨nofun, rfl⟩⟩

/-! ## The listener -/

theorem next_of_nil (hq : c.queue = []) :
    c.next = (if c.hasRequesters then .pending else .ended, c) := by
  have hq : c.requests.items = [] := hq
  unfold next Queue.receive hasRequesters requesters
  simp only [hq]
  cases c.requests.senders.any id || c.isLent <;> rfl

theorem next_of_cons {ns : List Nat} {t : Ticket I} (hq : c.queue = n :: ns)
    (ht : c.tickets[n]? = some t) : c.next = (.request n t.query, c.setQueue ns) := by
  have hq : c.requests.items = n :: ns := hq
  unfold next Queue.receive
  simp only [hq, ht]
  rfl

theorem next_ne_ended (hq : c.queue ≠ []) : c.next.1 ≠ .ended := by
  obtain ⟨n, ns, hcons⟩ := List.exists_cons_of_ne_nil hq
  have hcons : c.requests.items = n :: ns := hcons
  unfold next Queue.receive
  simp only [hcons]
  cases c.tickets[n]? <;> nofun

theorem next_snd (c : Channel I) : c.next.2 = c.setQueue c.queue.tail := by
  cases hq : c.queue with
  | nil =>
    rw [next_of_nil hq, List.tail_nil, ← hq]
    rfl
  | cons n ns =>
    have hq : c.requests.items = n :: ns := hq
    unfold next Queue.receive
    simp only [hq]
    cases c.tickets[n]? <;> rfl

theorem responder?_eq_some_iff {t : Ticket I} : c.responder? n = some t ↔
    c.tickets[n]? = some t ∧ t.slot = .unused ∧ n ∉ c.queue := by
  unfold responder?
  cases ht : c.tickets[n]? with
  | none => simp
  | some u =>
    cases hslot : u.slot with
    | unused =>
      by_cases hn : n ∈ c.queue
      · simp [hslot, hn]
      · simp only [hslot, hn, if_false]
        constructor
        · rintro ⟨⟩
          exact ⟨rfl, hslot, id⟩
        · exact And.left
    | _ =>
      simp only [hslot, reduceCtorEq, false_iff]
      rintro ⟨⟨⟩, hunused, -⟩
      rw [hslot] at hunused
      cases hunused

theorem respond_of_responder? {t : Ticket I} (ht : c.responder? n = some t)
    (answer : (q : I.Query) → I.Answer q) :
    c.respond n answer = some (t.waiting, c.modify n (.respond answer)) := by
  unfold respond
  rw [ht]
  rfl

theorem respond_eq_some {answer : (q : I.Query) → I.Answer q} {heard : Bool}
    (hc : c.respond n answer = some (heard, c')) :
    ∃ t, c.responder? n = some t ∧ heard = t.waiting ∧ c' = c.modify n (.respond answer) := by
  obtain ⟨t, ht, heq⟩ := Option.map_eq_some_iff.1 hc
  cases heq
  exact ⟨t, ht, rfl, rfl⟩

theorem dropResponder_eq (hn : (c.responder? n).isSome = true) :
    c.dropResponder n = c.modify n .lose := by
  obtain ⟨t, ht⟩ := Option.isSome_iff_exists.1 hn
  unfold Channel.dropResponder
  rw [ht]

end Channel

end ShieldedWallet
