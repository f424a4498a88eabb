import ShieldedWallet.Number.Scalar

/-!
# Accounts

An account has no note until its opening. From then on it has exactly one current note, which
commits to its identifier and balance; every movement of funds spends the current note and creates
the next one. The secrets of the note created at nonce `n` are derived from the identifier and `n`
and are never kept.
-/

namespace ShieldedWallet

/-- A movement of funds into or out of an account. -/
inductive Movement where
  /-- The creation of an account with its first deposit. -/
  | opening
  /-- A deposit into an open account. -/
  | deposit
  /-- A withdrawal from an open account. -/
  | withdrawal
deriving DecidableEq

/-- What is known of an open account. -/
structure Holding where
  /-- The identifier of the account. -/
  id : Scalar
  /-- The number of notes created so far. -/
  nonce : UInt64
  /-- The shielded balance. -/
  balance : UInt256
  /-- The current note. -/
  note : Scalar
  /-- The position of the current note among the leaves of the ledger, once it has been seen. -/
  noteIndex : Option UInt64
deriving DecidableEq

inductive Account where
  /-- An account without any note. -/
  | unopened (id : Scalar)
  /-- An account with a current note. -/
  | opened (holding : Holding)
deriving DecidableEq

namespace Account

/-- The identifier. -/
def id : Account → Scalar
  | .unopened id => id
  | .opened h => h.id

/-- The number of notes created so far. -/
def nonce : Account → UInt64
  | .unopened _ => 0
  | .opened h => h.nonce

/-- The shielded balance. -/
def balance : Account → UInt256
  | .unopened _ => 0
  | .opened h => h.balance

/-- The current note. -/
def note? : Account → Option Scalar
  | .unopened _ => none
  | .opened h => some h.note

/-- The position of the current note, if there is one and it is known. -/
def noteIndex? : Account → Option UInt64
  | .unopened _ => none
  | .opened h => h.noteIndex

/-- Whether the account has no note. -/
def isUnopened : Account → Bool
  | .unopened _ => true
  | .opened _ => false

/-- The same account with its current note at the position `index`. -/
def withNoteIndex (index : UInt64) : Account → Account
  | .unopened id => .unopened id
  | .opened h => .opened { h with noteIndex := some index }

@[simp] theorem id_withNoteIndex (index : UInt64) (a : Account) :
    (a.withNoteIndex index).id = a.id := by cases a <;> rfl

@[simp] theorem nonce_withNoteIndex (index : UInt64) (a : Account) :
    (a.withNoteIndex index).nonce = a.nonce := by cases a <;> rfl

@[simp] theorem balance_withNoteIndex (index : UInt64) (a : Account) :
    (a.withNoteIndex index).balance = a.balance := by cases a <;> rfl

@[simp] theorem note?_withNoteIndex (index : UInt64) (a : Account) :
    (a.withNoteIndex index).note? = a.note? := by cases a <;> rfl

end Account

/-- The nonce at which the secrets of the current note are derived. There is none for an open
account that claims to have created no note. -/
def Holding.noteNonce? (h : Holding) : Option UInt64 :=
  if h.nonce = 0 then none else some (h.nonce - 1)

namespace Movement

/-- The name of the movement in documents and reports. -/
def name : Movement → String
  | .opening => "NewAccount"
  | .deposit => "Deposit"
  | .withdrawal => "Withdraw"

/-- What is being proved. -/
def proofName : Movement → String
  | .opening => "new account"
  | .deposit => "deposit"
  | .withdrawal => "withdrawal"

/-- What is being done. -/
def verb : Movement → String
  | .opening => "create new account"
  | .deposit => "deposit"
  | .withdrawal => "withdraw"

/-- An account is opened once, and only open accounts move funds. -/
def appliesTo (m : Movement) (a : Account) : Bool :=
  match m with
  | .opening => a.isUnopened
  | .deposit | .withdrawal => !a.isUnopened

/-- The balance after a movement of `amount`, if it is neither negative nor too large. -/
def balanceAfter? (m : Movement) (balance amount : UInt256) : Option UInt256 :=
  match m with
  | .opening => some amount
  | .deposit => balance.add? amount
  | .withdrawal => balance.sub? amount

end Movement

end ShieldedWallet
