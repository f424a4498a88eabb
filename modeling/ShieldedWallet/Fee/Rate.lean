import ShieldedWallet.Number.UInt256

/-!
# Protocol fees

Fees are charged in basis points of the amount moved and rounded up. A quote says how much is moved
in total and how much of it is the fee; the fee is either contained in the amount asked about or put
on top of it.
-/

namespace ShieldedWallet

/-- A total and the fee it contains. -/
structure FeeQuote where
  /-- The amount moved, including the fee. -/
  total : UInt256
  fee : UInt256
deriving DecidableEq

namespace FeeQuote

/-- The basis points that make up the whole amount. -/
def wholeRate : UInt256 := 10000

/-- The quotient, rounded up. -/
def divCeil (a b : UInt256) : UInt256 :=
  if (a % b).toNat = 0 then a / b else (a / b).wrappingAdd 1

/-- The fee contained in `amount`. Quotient and remainder of the amount are charged separately, so
that nothing overflows up to the whole rate. -/
def ofTotal (amount rate : UInt256) : FeeQuote where
  total := amount
  fee := ((amount / wholeRate).wrappingMul rate).wrappingAdd
    (divCeil ((amount % wholeRate).wrappingMul rate) wholeRate)

/-- The fee on top of `amount`. There is none at the whole rate, or if a number is too large. -/
def ofNet? (amount rate : UInt256) : Option FeeQuote := do
  let rest ← wholeRate.sub? rate
  if rest.toNat = 0 then none
  else do
    let product ← amount.mul? rate
    let fee := divCeil product rest
    let total ← amount.add? fee
    return ⟨total, fee⟩

end FeeQuote

end ShieldedWallet
