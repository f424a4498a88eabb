import ShieldedWallet.Proofs.Fee.Rounding

/-!
# Gross and net

A total covers an amount if what its fee leaves of it is at least the amount. Both ways to compute a
fee round up, one of them with the whole rate as the denominator and the other one with what the rate
leaves of it. They fit together: the total quoted on top of an amount is the least one that covers it,
and its fee is the quoted one.
-/

namespace ShieldedWallet.FeeQuote

open UInt256

variable {amount total rate : UInt256} {q : FeeQuote}

/-! ## Fees contained in an amount -/

/-- A larger amount or a higher rate never has a smaller fee. -/
theorem fee_ofTotal_mono {amount' rate' : UInt256} (hamount : amount ≤ amount') (hrate : rate ≤ rate')
    (hrate' : rate' ≤ wholeRate) : (ofTotal amount rate).fee ≤ (ofTotal amount' rate').fee := by
  rw [le_iff] at hamount hrate hrate' ⊢
  rw [toNat_wholeRate] at hrate'
  rw [toNat_fee_ofTotal amount (Nat.le_trans hrate hrate'), toNat_fee_ofTotal amount' hrate',
    ceilDiv_le_iff_le_mul (by decide)]
  have hproduct : amount.toNat * rate.toNat ≤ amount'.toNat * rate'.toNat :=
    Nat.mul_le_mul hamount hrate
  have hceil : amount'.toNat * rate'.toNat ≤ 10000 * (amount'.toNat * rate'.toNat ⌈/⌉ 10000) :=
    (ceilDiv_le_iff_le_mul (show 0 < 10000 by decide)).1 (Nat.le_refl _)
  exact Nat.le_trans hproduct hceil

/-- Up to the whole rate the fee contained in an amount is computed without wrapping around. It is the
exact product, divided once and rounded up, it is at most the amount, and it grows with the amount and
with the rate. -/
theorem fee_ofTotal_exact (amount : UInt256) (hrate : rate ≤ wholeRate) :
    Unwrapped amount rate ∧
      (ofTotal amount rate).fee.toNat = amount.toNat * rate.toNat ⌈/⌉ 10000 ∧
      (ofTotal amount rate).fee ≤ amount ∧
      ∀ amount' rate', amount ≤ amount' → rate ≤ rate' → rate' ≤ wholeRate →
        (ofTotal amount rate).fee ≤ (ofTotal amount' rate').fee := by
  rw [le_iff, toNat_wholeRate] at hrate
  refine ⟨unwrapped_of_le amount hrate, toNat_fee_ofTotal amount hrate,
    fee_ofTotal_le amount hrate, ?_⟩
  intro amount' rate' hamount hrates hwhole
  exact fee_ofTotal_mono hamount hrates hwhole

/-- The largest amount is its own fee at the whole rate. -/
theorem fee_ofTotal_exact_largest :
    wholeRate ≤ wholeRate ∧ Unwrapped (.ofNat (size - 1)) wholeRate ∧
      (ofTotal (.ofNat (size - 1)) wholeRate).fee = .ofNat (size - 1) := by
  have hwhole : wholeRate ≤ wholeRate := Nat.le_refl _
  obtain ⟨hunwrapped, -, -, -⟩ := fee_ofTotal_exact (.ofNat (size - 1)) hwhole
  exact ⟨hwhole, hunwrapped, by decide⟩

/-! ## Totals that cover an amount -/

theorem add_ceilDiv_le_iff {a b n t : Nat} (hb : 0 < b) : a + n ⌈/⌉ b ≤ t ↔ a * b + n ≤ t * b := by
  rw [← mul_add_ceilDiv a n hb, ceilDiv_le_iff_le_mul hb, Nat.mul_comm b a, Nat.mul_comm b t]

/-- A total covers an amount if it does so in exact fractions. -/
theorem covers_iff (amount total : UInt256) (hrate : rate.toNat ≤ 10000) :
    amount.toNat ≤ total.toNat - (ofTotal total rate).fee.toNat ↔
      amount.toNat * 10000 ≤ total.toNat * (10000 - rate.toNat) := by
  have hfee := fee_ofTotal_le total hrate
  have hadd : amount.toNat ≤ total.toNat - (ofTotal total rate).fee.toNat ↔
      amount.toNat + (ofTotal total rate).fee.toNat ≤ total.toNat := by omega
  have hproduct : total.toNat * rate.toNat ≤ total.toNat * 10000 := Nat.mul_le_mul_left _ hrate
  rw [hadd, toNat_fee_ofTotal total hrate, add_ceilDiv_le_iff (by decide), Nat.mul_sub]
  omega

/-- The totals from the quoted one on are those that cover the amount in exact fractions. -/
theorem total_le_iff (h : ofNet? amount rate = some q) (total : UInt256) :
    q.total ≤ total ↔ amount.toNat * 10000 ≤ total.toNat * (10000 - rate.toNat) := by
  obtain ⟨hrate, -, hfee, htotal⟩ := ofNet?_eq_some_iff.1 h
  have hproduct : amount.toNat * rate.toNat ≤ amount.toNat * 10000 :=
    Nat.mul_le_mul_left _ (Nat.le_of_lt hrate)
  rw [le_iff, htotal, hfee, add_ceilDiv_le_iff (Nat.sub_pos_of_lt hrate), Nat.mul_sub]
  omega

/-- A share of `a` on top of `a` is what is contained of the sum, both being rounded up. -/
theorem add_mul_ceilDiv {a r w : Nat} (hr : r < w) :
    (a + a * r ⌈/⌉ (w - r)) * r ⌈/⌉ w = a * r ⌈/⌉ (w - r) := by
  have hw : 0 < w := Nat.zero_lt_of_lt hr
  have hle : ∀ x, a * r ⌈/⌉ (w - r) ≤ x ↔ a * r ≤ (w - r) * x := fun x =>
    ceilDiv_le_iff_le_mul (Nat.sub_pos_of_lt hr)
  generalize a * r ⌈/⌉ (w - r) = share at hle ⊢
  apply Nat.le_antisymm
  · have hshare : a * r ≤ (w - r) * share := (hle share).1 (Nat.le_refl share)
    have hrest : r * share ≤ w * share := Nat.mul_le_mul_right _ (Nat.le_of_lt hr)
    rw [Nat.sub_mul] at hshare
    rw [ceilDiv_le_iff_le_mul hw, Nat.add_mul, Nat.mul_comm share r]
    omega
  · -- with less than the share there would be enough for the share
    by_contra hlt
    have hcontained := (ceilDiv_le_iff_le_mul hw).1
      (Nat.le_refl ((a + share) * r ⌈/⌉ w))
    generalize (a + share) * r ⌈/⌉ w = contained at hlt hcontained
    have hless : contained * r ≤ share * r := Nat.mul_le_mul_right r (by omega)
    have henough : share ≤ contained := by
      rw [hle, Nat.sub_mul, Nat.mul_comm r contained]
      rw [Nat.add_mul] at hcontained
      omega
    exact hlt henough

/-- The fee contained in the quoted total is the quoted fee. -/
theorem fee_ofTotal_total (h : ofNet? amount rate = some q) :
    (ofTotal q.total rate).fee = q.fee := by
  obtain ⟨hrate, -, hfee, htotal⟩ := ofNet?_eq_some_iff.1 h
  rw [UInt256.ext_iff, toNat_fee_ofTotal q.total (Nat.le_of_lt hrate), htotal, hfee]
  exact add_mul_ceilDiv hrate

/-- A quote on top of an amount is exact. Its total contains just the quoted fee, and it is the least
one of which the fee leaves the amount: any total leaves at least the amount if and only if it is at
least the quoted one. There is no quote if and only if the rate is the whole one or above, or one of
the numbers cannot be represented. -/
theorem ofNet?_least (amount rate : UInt256) :
    (∀ q, ofNet? amount rate = some q →
      rate.toNat < 10000 ∧
      q.fee.toNat = amount.toNat * rate.toNat ⌈/⌉ (10000 - rate.toNat) ∧
      q.total.toNat = amount.toNat + q.fee.toNat ∧
      (ofTotal q.total rate).fee = q.fee ∧
      ∀ total, (ofTotal total rate).fee ≤ total ∧
        (amount.toNat ≤ total.toNat - (ofTotal total rate).fee.toNat ↔ q.total ≤ total)) ∧
    (ofNet? amount rate = none ↔
      10000 ≤ rate.toNat ∨ size ≤ amount.toNat * rate.toNat ∨
        size ≤ amount.toNat + amount.toNat * rate.toNat ⌈/⌉ (10000 - rate.toNat)) := by
  refine ⟨?_, ofNet?_eq_none_iff⟩
  intro q h
  obtain ⟨hrate, -, hfee, htotal⟩ := ofNet?_eq_some_iff.1 h
  refine ⟨hrate, hfee, htotal, fee_ofTotal_total h, ?_⟩
  intro total
  refine ⟨fee_ofTotal_le total (Nat.le_of_lt hrate), ?_⟩
  rw [covers_iff amount total (Nat.le_of_lt hrate), total_le_iff h total]

/-- 10000 at one hundredth: the quoted total is 10102, and 10101 is not enough. -/
theorem ofNet?_least_hundredth :
    ofNet? 10000 100 = some ⟨10102, 102⟩ ∧ (ofTotal 10102 100).fee = 102 ∧
      ¬ (10000 : UInt256).toNat ≤ (10101 : UInt256).toNat - (ofTotal 10101 100).fee.toNat := by
  have hquote : ofNet? 10000 100 = some ⟨10102, 102⟩ := by decide
  obtain ⟨-, -, -, hfee, hleast⟩ := (ofNet?_least 10000 100).1 _ hquote
  refine ⟨hquote, hfee, ?_⟩
  rw [(hleast 10101).2]
  decide

end ShieldedWallet.FeeQuote
