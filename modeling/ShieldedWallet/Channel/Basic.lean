import ShieldedWallet.Channel.Oneshot
import ShieldedWallet.Channel.Queue
import ShieldedWallet.Failure
import ShieldedWallet.Program

/-!
# Request channels

Requesters put requests into one queue, and a listener takes them out. Each request comes with a
responder of its own, through which it is answered once, by whoever holds the responder then: the
sender of a channel for one value, whose receiver the request waits at. A request fails at once if
nobody listens, and later if its responder is dropped unanswered. The listener learns that the channel
has ended when no requester is left, where a request borrows its requester until it is finished.

What is gone can be dropped again, which changes nothing: a requester or the listener dropped
before, a request that is finished or abandoned, a responder that has been used or dropped.

Requesters, requests and responders are numbered in the order of their creation; a request and its
responder have the same number.
-/

namespace ShieldedWallet

/-- A request. -/
structure Ticket (I : Interface) where
  /-- What is asked. -/
  query : I.Query
  /-- The channel for the answer. Its sender is the responder. -/
  reply : Oneshot (I.Answer query)

/-- A channel for requests of `I`. -/
structure Channel (I : Interface) where
  /-- The numbers of the requests that wait for the listener. The senders are the requesters. -/
  requests : Queue Nat
  /-- The requests. -/
  tickets : List (Ticket I)

/-- The result of asking for the outcome of a request. -/
inductive Poll (α : Type) where
  /-- There is none yet. -/
  | pending
  /-- The request is finished. -/
  | ready (outcome : Except ChannelFailure α)

/-- The result of asking for the next request. -/
inductive Delivery (I : Interface) where
  | request (number : Nat) (query : I.Query)
  /-- The queue is empty. -/
  | pending
  /-- The queue is empty and stays so. -/
  | ended

namespace Ticket

variable {I : Interface}

/-- What has become of the responder. -/
abbrev slot (t : Ticket I) : Slot (I.Answer t.query) := t.reply.slot

/-- Whether the requester still waits. It stops when the request is finished or abandoned. -/
abbrev waiting (t : Ticket I) : Bool := t.reply.waiting

/-- The request once its responder has been used. -/
def respond (answer : (q : I.Query) → I.Answer q) (t : Ticket I) : Ticket I :=
  { t with reply := (t.reply.send (answer t.query)).2 }

/-- The request once its responder has been dropped. -/
def lose (t : Ticket I) : Ticket I := { t with reply := t.reply.dropSender }

/-- The request once nobody waits for it. -/
def leave (t : Ticket I) : Ticket I := { t with reply := t.reply.dropReceiver }

end Ticket

namespace Channel

variable {I : Interface}

/-- Which requesters are alive. -/
def requesters (c : Channel I) : List Bool := c.requests.senders

/-- The numbers of the requests in the queue, oldest first. -/
def queue (c : Channel I) : List Nat := c.requests.items

/-- Whether there is a listener. -/
def listening (c : Channel I) : Bool := c.requests.receiving

/-- A new channel with one requester. -/
def new : Channel I := ⟨.new, []⟩

/-- Whether the requester `i` is alive. -/
def isAlive (c : Channel I) (i : Nat) : Bool := c.requests.isAlive i

/-- Whether some request has borrowed its requester. -/
def isLent (c : Channel I) : Bool := c.tickets.any (·.waiting)

/-- Whether some requester is alive, counting those of unfinished requests. -/
def hasRequesters (c : Channel I) : Bool := c.requesters.any id || c.isLent

/-- Changes the request `n`. -/
def modify (c : Channel I) (n : Nat) (f : Ticket I → Ticket I) : Channel I :=
  { c with tickets := c.tickets.modify n f }

/-! ## Requesters -/

/-- Makes another requester out of the requester `i`. -/
def clone (c : Channel I) (i : Nat) : Option (Nat × Channel I) :=
  (c.requests.clone i).map fun (j, requests) => (j, { c with requests })

/-- Drops the requester `i`, if it is alive. -/
def dropRequester (c : Channel I) (i : Nat) : Channel I :=
  { c with requests := c.requests.dropSender i }

/-- Whether the requester `i` finds that nobody listens. -/
def isClosed (c : Channel I) (i : Nat) : Option Bool := c.requests.isClosed i

/-- Starts a request of the requester `i`. If it cannot be sent, it is dropped with its responder. -/
def start (c : Channel I) (i : Nat) (q : I.Query) : Option (Poll (I.Answer q) × Channel I) :=
  match c.requests.send i c.tickets.length with
  | none => none
  | some (true, requests) => some (.pending, ⟨requests, c.tickets ++ [⟨q, .new⟩]⟩)
  | some (false, requests) =>
    some (.ready (.error .closed), ⟨requests, c.tickets ++ [(Ticket.mk q .new).lose.leave]⟩)

/-- Asks for the outcome of an unfinished request. -/
def poll (c : Channel I) (n : Nat) : Option (((q : I.Query) × Poll (I.Answer q)) × Channel I) :=
  match c.tickets[n]? with
  | none => none
  | some t =>
    match t.reply.receive with
    | none => none
    | some .unused => some (⟨t.query, .pending⟩, c)
    | some (.answered a) => some (⟨t.query, .ready (.ok a)⟩, c.modify n .leave)
    | some .dropped => some (⟨t.query, .ready (.error .dropped)⟩, c.modify n .leave)

/-- Gives up the request `n`, if it is unfinished. In the queue it keeps its place. -/
def abandon (c : Channel I) (n : Nat) : Channel I := c.modify n .leave

/-! ## The listener -/

/-- Drops the listener, if there is one, and with it the requests that are still queued. -/
def dropListener (c : Channel I) : Channel I :=
  let (unheard, requests) := c.requests.dropReceiver
  ⟨requests, unheard.foldl (fun ts n => ts.modify n .lose) c.tickets⟩

/-- Takes the oldest request out of the queue. -/
def next (c : Channel I) : Delivery I × Channel I :=
  match c.requests.receive c.isLent with
  | (.empty, requests) => (.pending, { c with requests })
  | (.ended, requests) => (.ended, { c with requests })
  | (.item n, requests) =>
    match c.tickets[n]? with
    | none => (.pending, { c with requests })
    | some t => (.request n t.query, { c with requests })

/-- The request `n`, if its responder has been handed out and not been used. -/
def responder? (c : Channel I) (n : Nat) : Option (Ticket I) :=
  match c.tickets[n]? with
  | none => none
  | some t =>
    match t.slot with
    | .unused => if n ∈ c.queue then none else some t
    | _ => none

/-- Answers the request `n` through its responder. The result says whether anybody waits. -/
def respond (c : Channel I) (n : Nat) (answer : (q : I.Query) → I.Answer q) :
    Option (Bool × Channel I) :=
  (c.responder? n).map fun t =>
    ((t.reply.send (answer t.query)).1, c.modify n (.respond answer))

/-- Drops the responder of the request `n`, if it has been handed out and not been used. -/
def dropResponder (c : Channel I) (n : Nat) : Channel I :=
  match c.responder? n with
  | none => c
  | some _ => c.modify n .lose

end Channel

end ShieldedWallet
