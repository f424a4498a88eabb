import Mathlib.Algebra.Order.Floor.Div
import ShieldedWallet.Fee.Rate

/-!
# Rounded fees

The fees are computed with words that wrap around. Up to the whole rate no word does, so that a fee
is the exact quotient, rounded up once, and a quote on top of an amount is refused just when one of
its numbers has no representation.
-/

namespace ShieldedWallet.FeeQuote

open UInt256

variable {amount rate : UInt256} {q : FeeQuote}

/-! ## Quotients -/

theorem ceilDiv_eq_ite (a : Nat) {b : Nat} (hb : 0 < b) :
    a ⌈/⌉ b = if a % b = 0 then a / b else a / b + 1 := by
  have hdiv := Nat.div_add_mod a b
  have hmod := Nat.mod_lt a hb
  rw [Nat.ceilDiv_eq_add_pred_div]
  by_cases h0 : a % b = 0
  · rw [if_pos h0, Nat.div_eq_of_lt_le]
    · rw [Nat.mul_comm]
      omega
    · rw [Nat.add_mul, Nat.mul_comm]
      omega
  · rw [if_neg h0, Nat.div_eq_of_lt_le]
    · rw [Nat.add_mul, Nat.mul_comm]
      omega
    · rw [Nat.add_mul, Nat.add_mul, Nat.mul_comm]
      omega

/-- What is divided without remainder can be divided first. -/
theorem mul_add_ceilDiv (q r : Nat) {b : Nat} (hb : 0 < b) :
    (b * q + r) ⌈/⌉ b = q + r ⌈/⌉ b := by
  rw [ceilDiv_eq_ite _ hb, ceilDiv_eq_ite _ hb, Nat.mul_add_mod, Nat.mul_add_div hb]
  split <;> omega

@[simp] theorem toNat_wholeRate : wholeRate.toNat = 10000 := rfl

/-- Rounding a quotient up never wraps around. -/
theorem toNat_divCeil (a : UInt256) {b : UInt256} (hb : 0 < b.toNat) :
    (divCeil a b).toNat = a.toNat ⌈/⌉ b.toNat := by
  rw [ceilDiv_eq_ite _ hb]
  unfold divCeil
  rw [toNat_mod]
  by_cases h0 : a.toNat % b.toNat = 0
  · rw [if_pos h0, if_pos h0, toNat_div]
  · rw [if_neg h0, if_neg h0, toNat_wrappingAdd, toNat_div]
    refine Nat.mod_eq_of_lt ?_
    -- The divisor is not 1, so the quotient is less than the dividend.
    have hmod := Nat.mod_lt a.toNat hb
    have hdiv : a.toNat / b.toNat < a.toNat :=
      Nat.div_lt_self (by have := Nat.mod_le a.toNat b.toNat; omega) (by omega)
    have hone : (1 : UInt256).toNat = 1 := rfl
    have hlt := a.toNat_lt
    omega

/-! ## Fees contained in an amount -/

/-- None of the operations that make up the fee contained in `amount` wraps around: not the charges on
the quotient and on the remainder, not the rounding up of the latter, and not their sum. -/
structure Unwrapped (amount rate : UInt256) : Prop where
  quotient : (amount / wholeRate).toNat * rate.toNat < size
  remainder : (amount % wholeRate).toNat * rate.toNat < size
  rounding : ((amount % wholeRate).wrappingMul rate / wholeRate).toNat + 1 < size
  sum : ((amount / wholeRate).wrappingMul rate).toNat +
    (divCeil ((amount % wholeRate).wrappingMul rate) wholeRate).toNat < size

/-- The charge on the remainder, rounded up. -/
theorem toNat_divCeil_remainder (amount : UInt256) (hrate : rate.toNat ≤ 10000) :
    (divCeil ((amount % wholeRate).wrappingMul rate) wholeRate).toNat =
      amount.toNat % 10000 * rate.toNat ⌈/⌉ 10000 := by
  have hmod := Nat.mod_lt amount.toNat (show 0 < 10000 by decide)
  have hsize : 10000 * 10000 < size := by decide
  have hremainder : amount.toNat % 10000 * rate.toNat ≤ amount.toNat % 10000 * 10000 :=
    Nat.mul_le_mul_left _ hrate
  rw [toNat_divCeil _ (by decide), toNat_wrappingMul, toNat_mod, toNat_wholeRate,
    Nat.mod_eq_of_lt (by omega)]

/-- The charge on the quotient. -/
theorem toNat_charge_quotient (amount : UInt256) (hrate : rate.toNat ≤ 10000) :
    ((amount / wholeRate).wrappingMul rate).toNat = amount.toNat / 10000 * rate.toNat := by
  have hamount := Nat.div_add_mod amount.toNat 10000
  have hlt := amount.toNat_lt
  have hquotient : amount.toNat / 10000 * rate.toNat ≤ amount.toNat / 10000 * 10000 :=
    Nat.mul_le_mul_left _ hrate
  rw [toNat_wrappingMul, toNat_div, toNat_wholeRate, Nat.mod_eq_of_lt (by omega)]

/-- The charges on the quotient and the remainder add up to at most the amount. -/
theorem charges_le (amount : Nat) {rate : Nat} (hrate : rate ≤ 10000) :
    amount / 10000 * rate + amount % 10000 * rate ⌈/⌉ 10000 ≤ amount := by
  have hamount := Nat.div_add_mod amount 10000
  have hquotient : amount / 10000 * rate ≤ amount / 10000 * 10000 := Nat.mul_le_mul_left _ hrate
  have hremainder : amount % 10000 * rate ≤ amount % 10000 * 10000 := Nat.mul_le_mul_left _ hrate
  have hceil : amount % 10000 * rate ⌈/⌉ 10000 ≤ amount % 10000 := by
    rw [ceilDiv_le_iff_le_mul (by decide)]
    omega
  omega

/-- Up to the whole rate nothing wraps around. -/
theorem unwrapped_of_le (amount : UInt256) (hrate : rate.toNat ≤ 10000) :
    Unwrapped amount rate := by
  have hmod := Nat.mod_lt amount.toNat (show 0 < 10000 by decide)
  have hlt := amount.toNat_lt
  have hsize : 10000 * 10000 < size := by decide
  have hsum := charges_le amount.toNat hrate
  have hremainder : amount.toNat % 10000 * rate.toNat ≤ amount.toNat % 10000 * 10000 :=
    Nat.mul_le_mul_left _ hrate
  constructor
  · rw [toNat_div, toNat_wholeRate]
    omega
  · rw [toNat_mod, toNat_wholeRate]
    omega
  · rw [toNat_div, toNat_wrappingMul, toNat_mod, toNat_wholeRate, Nat.mod_eq_of_lt (by omega)]
    omega
  · rw [toNat_charge_quotient amount hrate, toNat_divCeil_remainder amount hrate]
    omega

/-- The fee contained in an amount is exact. -/
theorem toNat_fee_ofTotal (amount : UInt256) (hrate : rate.toNat ≤ 10000) :
    (ofTotal amount rate).fee.toNat = amount.toNat * rate.toNat ⌈/⌉ 10000 := by
  have hproduct : amount.toNat * rate.toNat =
      10000 * (amount.toNat / 10000 * rate.toNat) + amount.toNat % 10000 * rate.toNat := by
    calc amount.toNat * rate.toNat
        = (10000 * (amount.toNat / 10000) + amount.toNat % 10000) * rate.toNat := by
          rw [Nat.div_add_mod]
      _ = _ := by rw [Nat.add_mul, Nat.mul_assoc]
  rw [hproduct, mul_add_ceilDiv _ _ (by decide)]
  show (((amount / wholeRate).wrappingMul rate).wrappingAdd _).toNat = _
  rw [toNat_wrappingAdd, Nat.mod_eq_of_lt (unwrapped_of_le amount hrate).sum,
    toNat_charge_quotient amount hrate, toNat_divCeil_remainder amount hrate]

/-- Up to the whole rate the fee is at most the amount. -/
theorem fee_ofTotal_le (amount : UInt256) (hrate : rate.toNat ≤ 10000) :
    (ofTotal amount rate).fee.toNat ≤ amount.toNat := by
  rw [toNat_fee_ofTotal amount hrate, ceilDiv_le_iff_le_mul (by decide), Nat.mul_comm]
  exact Nat.mul_le_mul_right _ hrate

/-! ## Fees on top of an amount -/

/-- A quote on top of an amount is exact. -/
theorem ofNet?_eq_some_iff : ofNet? amount rate = some q ↔
    rate.toNat < 10000 ∧ amount.toNat * rate.toNat < size ∧
      q.fee.toNat = amount.toNat * rate.toNat ⌈/⌉ (10000 - rate.toNat) ∧
      q.total.toNat = amount.toNat + q.fee.toNat := by
  unfold ofNet?
  constructor
  · intro h
    obtain ⟨rest, hrest, h⟩ := Option.bind_eq_some_iff.1 h
    rw [sub?_eq_some_iff, toNat_wholeRate] at hrest
    by_cases h0 : rest.toNat = 0
    · rw [if_pos h0] at h
      cases h
    · rw [if_neg h0] at h
      obtain ⟨product, hproduct, h⟩ := Option.bind_eq_some_iff.1 h
      obtain ⟨total, htotal, h⟩ := Option.bind_eq_some_iff.1 h
      cases h
      have hfee := toNat_divCeil product (Nat.pos_of_ne_zero h0)
      rw [mul?_eq_some_iff] at hproduct
      rw [add?_eq_some_iff] at htotal
      refine ⟨by omega, hproduct ▸ product.toNat_lt, ?_, htotal.symm⟩
      rw [hfee, hproduct, hrest, Nat.add_sub_cancel_left]
  · rintro ⟨hrate, hlt, hfee, htotal⟩
    let rest : UInt256 := ⟨10000 - rate.toNat, Nat.lt_of_le_of_lt (Nat.sub_le _ _) (by decide)⟩
    let product : UInt256 := ⟨amount.toNat * rate.toNat, hlt⟩
    have hrest : wholeRate.sub? rate = some rest := by
      rw [sub?_eq_some_iff, toNat_wholeRate]
      show 10000 = rate.toNat + (10000 - rate.toNat)
      omega
    have hpos : 0 < rest.toNat := Nat.sub_pos_of_lt hrate
    have hproduct : amount.mul? rate = some product := mul?_eq_some_iff.2 rfl
    have hdivided : divCeil product rest = q.fee := by
      rw [UInt256.ext_iff, toNat_divCeil _ hpos, hfee]
    have hsum : amount.add? q.fee = some q.total := add?_eq_some_iff.2 htotal.symm
    refine Option.bind_eq_some_iff.2 ⟨rest, hrest, ?_⟩
    rw [if_neg (Nat.ne_of_gt hpos)]
    refine Option.bind_eq_some_iff.2 ⟨product, hproduct, ?_⟩
    refine Option.bind_eq_some_iff.2 ⟨q.total, ?_, ?_⟩
    · rw [hdivided, hsum]
    · rw [hdivided]
      rfl

/-- There is no quote on top of an amount just when one of its numbers cannot be represented. -/
theorem ofNet?_eq_none_iff : ofNet? amount rate = none ↔
    10000 ≤ rate.toNat ∨ size ≤ amount.toNat * rate.toNat ∨
      size ≤ amount.toNat + amount.toNat * rate.toNat ⌈/⌉ (10000 - rate.toNat) := by
  constructor
  · intro h
    by_contra hfits
    obtain ⟨hrate, hproduct, hsum⟩ : rate.toNat < 10000 ∧ amount.toNat * rate.toNat < size ∧
        amount.toNat + amount.toNat * rate.toNat ⌈/⌉ (10000 - rate.toNat) < size := by
      omega
    let q : FeeQuote := ⟨⟨_, hsum⟩, ⟨_, Nat.lt_of_le_of_lt (Nat.le_add_left _ _) hsum⟩⟩
    have hq : ofNet? amount rate = some q := ofNet?_eq_some_iff.2 ⟨hrate, hproduct, rfl, rfl⟩
    rw [h] at hq
    cases hq
  · intro h
    by_contra hsome
    obtain ⟨q, hq⟩ := Option.ne_none_iff_exists'.1 hsome
    obtain ⟨hrate, hproduct, hfee, htotal⟩ := ofNet?_eq_some_iff.1 hq
    have hlt := q.total.toNat_lt
    omega

/-! ## Exact quotes -/

/-- The fee of a quote is the rate of the amount that it is contained in, or of which it leaves just
the amount asked about, rounded up. -/
def Exact (q : FeeQuote) (amount rate : UInt256) (included : Bool) : Prop :=
  if included then q.total = amount ∧ q.fee.toNat = amount.toNat * rate.toNat ⌈/⌉ 10000
  else q.fee.toNat = amount.toNat * rate.toNat ⌈/⌉ (10000 - rate.toNat) ∧
    q.total.toNat = amount.toNat + q.fee.toNat

theorem exact_ofTotal (amount : UInt256) (hrate : rate.toNat ≤ 10000) :
    (ofTotal amount rate).Exact amount rate true := ⟨rfl, toNat_fee_ofTotal amount hrate⟩

theorem exact_ofNet? (h : ofNet? amount rate = some q) :
    q.Exact amount rate false ∧ rate.toNat < 10000 := by
  obtain ⟨hrate, -, hfee, htotal⟩ := ofNet?_eq_some_iff.1 h
  exact ⟨⟨hfee, htotal⟩, hrate⟩

/-- Up to the whole rate a fee is at most the total. -/
theorem Exact.fee_le {included : Bool} (h : q.Exact amount rate included)
    (hrate : rate.toNat ≤ 10000) : q.fee ≤ q.total := by
  rw [le_iff]
  cases included with
  | true =>
    obtain ⟨rfl, hfee⟩ := h
    rw [hfee, ← toNat_fee_ofTotal q.total hrate]
    exact fee_ofTotal_le q.total hrate
  | false =>
    obtain ⟨-, htotal⟩ := h
    omega

end ShieldedWallet.FeeQuote
