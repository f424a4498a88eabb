/-!
# Channels for one value

A sender is used once, or dropped without a value. The receiver finds the value, or it finds that
there will be none. It can be dropped as well, and then a value is still taken but never found.
-/

namespace ShieldedWallet

/-- What has become of the sender of a value. -/
inductive Slot (α : Type) where
  /-- The sender has not been used. -/
  | unused
  /-- The sender has been used to send `a`. -/
  | answered (a : α)
  /-- The sender has been dropped. -/
  | dropped

/-- A channel for one value. -/
structure Oneshot (α : Type) where
  /-- What has become of the sender. -/
  slot : Slot α
  /-- Whether there is a receiver. -/
  waiting : Bool

namespace Oneshot

variable {α : Type}

def new : Oneshot α := ⟨.unused, true⟩

/-- Sends `a`. The result says whether there is a receiver. -/
def send (o : Oneshot α) (a : α) : Bool × Oneshot α := (o.waiting, { o with slot := .answered a })

/-- What the receiver finds, if there is one. -/
def receive (o : Oneshot α) : Option (Slot α) := if o.waiting then some o.slot else none

def dropSender (o : Oneshot α) : Oneshot α := { o with slot := .dropped }

def dropReceiver (o : Oneshot α) : Oneshot α := { o with waiting := false }

end Oneshot

end ShieldedWallet
