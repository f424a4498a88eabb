/-!
# Queues

Any number of senders put items into a queue without a bound, and one receiver takes them out in the
order in which they were sent. The receiver learns that the queue has ended when it is empty and no
sender is left. Without a receiver nothing can be sent.

Senders are numbered in the order of their creation.
-/

namespace ShieldedWallet

/-- A queue for items of `α`. -/
structure Queue (α : Type) where
  /-- Which senders are alive. -/
  senders : List Bool
  /-- What has been sent and not been received, oldest first. -/
  items : List α
  /-- Whether there is a receiver. -/
  receiving : Bool

/-- What a receiver finds. -/
inductive Receipt (α : Type) where
  | item (a : α)
  /-- There is nothing yet. -/
  | empty
  /-- There is nothing, and there will be nothing. -/
  | ended

namespace Queue

variable {α : Type}

/-- A new queue with one sender. -/
def new : Queue α := ⟨[true], [], true⟩

/-- Whether the sender `i` is alive. -/
def isAlive (q : Queue α) (i : Nat) : Bool := q.senders.getD i false

/-- Makes another sender out of the sender `i`. -/
def clone (q : Queue α) (i : Nat) : Option (Nat × Queue α) :=
  if q.isAlive i then some (q.senders.length, { q with senders := q.senders ++ [true] }) else none

/-- Drops the sender `i`, if it is alive. -/
def dropSender (q : Queue α) (i : Nat) : Queue α := { q with senders := q.senders.set i false }

/-- Whether the sender `i` finds that there is no receiver. -/
def isClosed (q : Queue α) (i : Nat) : Option Bool :=
  if q.isAlive i then some (!q.receiving) else none

/-- Sends `a` through the sender `i`. The result says whether it could be sent. -/
def send (q : Queue α) (i : Nat) (a : α) : Option (Bool × Queue α) :=
  if !q.isAlive i then none
  else if q.receiving then some (true, { q with items := q.items ++ [a] })
  else some (false, q)

/-- Takes the oldest item. A sender that is lent to somebody counts until it is given back, and `lent`
says whether there is one. -/
def receive (q : Queue α) (lent : Bool) : Receipt α × Queue α :=
  match q.items with
  | [] => (if q.senders.any id || lent then .empty else .ended, q)
  | a :: items => (.item a, { q with items })

/-- Drops the receiver, if there is one. The result is what nobody can receive any more. -/
def dropReceiver (q : Queue α) : List α × Queue α :=
  (q.items, { q with items := [], receiving := false })

end Queue

end ShieldedWallet
