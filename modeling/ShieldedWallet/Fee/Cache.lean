import ShieldedWallet.Action
import ShieldedWallet.Fee.Rate

/-!
# Known rates

The rates of the protocol fees are asked of the contract when they are first needed and are then
remembered. They can be asked again. A rate above the whole amount is never remembered.
-/

namespace ShieldedWallet

/-- The rates that have been asked of the contract. -/
structure RateCache where
  deposit : Option UInt256 := none
  withdrawal : Option UInt256 := none
deriving DecidableEq

namespace RateCache

/-- The remembered rate of a fee. -/
def get? (c : RateCache) : FeeKind → Option UInt256
  | .deposit => c.deposit
  | .withdrawal => c.withdrawal

/-- Remembers the rate of a fee. -/
def set (c : RateCache) (k : FeeKind) (rate : UInt256) : RateCache :=
  match k with
  | .deposit => { c with deposit := some rate }
  | .withdrawal => { c with withdrawal := some rate }

/-- Rejects a rate above the whole amount. -/
def checkRate (rate : UInt256) : Except Failure UInt256 :=
  if FeeQuote.wholeRate < rate then .error (.invalidRate rate) else .ok rate

/-- Asks the contract for a rate and remembers it. -/
def refresh (c : RateCache) (k : FeeKind) : Action (UInt256 × RateCache) := do
  let answer ← Action.contract (.rate k)
  let rate ← liftM (checkRate answer)
  return (rate, c.set k rate)

/-- The remembered rate, or else the one the contract gives. -/
def rate (c : RateCache) (k : FeeKind) : Action (UInt256 × RateCache) :=
  match c.get? k with
  | some rate => return (rate, c)
  | none => c.refresh k

/-- The quote for an amount at a known rate. -/
def quoteAt (rate amount : UInt256) (included : Bool) : Except Failure FeeQuote :=
  if included then .ok (.ofTotal amount rate)
  else match FeeQuote.ofNet? amount rate with
    | some q => .ok q
    | none => .error .feeOverflow

/-- The quote for an amount that does or does not include the fee. The cache that comes with it is
the one to be kept, also if there is no quote. -/
def quote (c : RateCache) (k : FeeKind) (amount : UInt256) (included : Bool) :
    Action (Except Failure FeeQuote × RateCache) := do
  let (rate, c) ← c.rate k
  return (quoteAt rate amount included, c)

end RateCache

end ShieldedWallet
