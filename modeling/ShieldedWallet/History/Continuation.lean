import ShieldedWallet.Note.Transition

/-!
# Events that continue an account

Anybody can make the contract emit events. An event continues an account if its movement applies to
the account and its note is the one the account would create by that movement of that amount. An
account whose nonces are used up is continued by no event.
-/

namespace ShieldedWallet.NoteEvent

/-- The account after the movement that the event claims, if the movement applies. -/
def claimed? (version : ContractVersion) (a : Account) (e : NoteEvent) : Action (Option Account) :=
  if e.movement.appliesTo a then
    tryCatch (Note.next? version e.movement a e.amount) fun f =>
      if f = .nonceOverflow then return none else throw f
  else return none

/-- Whether `next` is an account with the note of the event. -/
def announces (e : NoteEvent) (next : Option Account) : Bool :=
  next.bind Account.note? = some e.note

/-- The events among `es` that continue the account, in their order. -/
def continuing (version : ContractVersion) (a : Account) : List NoteEvent → Action (List NoteEvent)
  | [] => return []
  | e :: es => do
    let next ← e.claimed? version a
    let rest ← continuing version a es
    return if e.announces next then e :: rest else rest

/-- The account after an event that continues it, its note being where the event says. -/
def apply (version : ContractVersion) (a : Account) (e : NoteEvent) : Action Account := do
  let next ← e.claimed? version a
  match next with
  | some b =>
    if e.announces next then return b.withNoteIndex e.noteIndex
    else throw (.history (.brokenTransition e.block))
  | none => throw (.history (.brokenTransition e.block))

end ShieldedWallet.NoteEvent
