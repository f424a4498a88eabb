import ShieldedWallet.Fee.Cache
import ShieldedWallet.Proofs.Fee.Rounding
import ShieldedWallet.Proofs.Program.Action

/-!
# Remembered rates

Quotes and refreshes are asked for one after another, while the contract may answer whatever it
likes. For each fee the last valid rate that the contract has given is remembered, and nothing else.
A quote asks the contract only while no rate of its fee is remembered, and it is exact at the
remembered one.
-/

namespace ShieldedWallet

/-- The rate for the fee `k` that the contract gives, if it is a valid one. -/
def Exchange.rate? (k : FeeKind) : Exchange surroundings → Option UInt256
  | ⟨.contract (.rate k'), .ok rate⟩ =>
    if k' = k ∧ rate ≤ FeeQuote.wholeRate then some rate else none
  | _ => none

/-- The valid rates for the fee `k` that the contract has given. -/
def Trace.rates (k : FeeKind) (t : Trace) : List UInt256 := t.filterMap (Exchange.rate? k)

namespace RateCache

/-- What can be asked of the rates that are known. -/
inductive Inquiry where
  /-- The fee of an amount. -/
  | quote (k : FeeKind) (amount : UInt256) (included : Bool)
  /-- The present rate. -/
  | refresh (k : FeeKind)

inductive Reply where
  | quote (q : FeeQuote)
  | rate (rate : UInt256)

namespace Inquiry

def kind : Inquiry → FeeKind
  | .quote k _ _ => k
  | .refresh k => k

def IsQuote : Inquiry → Prop
  | .quote _ _ _ => True
  | .refresh _ => False

/-- The exchange with the contract, in which the rate is asked for. -/
def fetch (i : Inquiry) (answer : Except ContractFailure UInt256) : Exchange surroundings :=
  ⟨.contract (.rate i.kind), answer⟩

end Inquiry

/-- The reply to an inquiry, and the rates that are known afterwards. -/
def inquire (c : RateCache) : Inquiry → Program surroundings (Except Failure Reply × RateCache)
  | .quote k amount included => (c.quote k amount included).run.bind fun
      | .ok (r, c') => .done (r.map .quote, c')
      | .error e => .done (.error e, c)
  | .refresh k => (c.refresh k).run.bind fun
      | .ok (rate, c') => .done (.ok (.rate rate), c')
      | .error e => .done (.error e, c)

/-- The rates that are known after some inquiries, one after another. -/
def inquireAll (c : RateCache) : List Inquiry → Program surroundings RateCache
  | [] => .done c
  | i :: is => (c.inquire i).bind fun r => r.2.inquireAll is

def Valid (c : RateCache) : Prop := ∀ k rate, c.get? k = some rate → rate.toNat ≤ 10000

/-- What becomes of the inquiry `i` while the rates `c` are known: for the exchanges `t` with the
contract, the reply is `r`, and the rates `c'` are known afterwards. -/
structure Answers (c : RateCache) (i : Inquiry) (t : Trace) (r : Except Failure Reply)
    (c' : RateCache) : Prop where
  /-- The contract is asked once, for the rate of the fee, or not at all. It is not asked just for a
  quote when the rate is known. -/
  asks : t = [] ∧ i.IsQuote ∧ c.get? i.kind ≠ none ∨
    (∃ answer, t = [i.fetch answer]) ∧ (i.IsQuote → c.get? i.kind = none)
  /-- What is not asked for does not change. -/
  kept : t = [] → c' = c
  /-- A failure of the contract is passed on, and nothing changes. -/
  failed : ∀ e, t = [i.fetch (.error e)] → r = .error (.ofContract e) ∧ c' = c
  /-- An invalid rate is refused, and nothing changes. -/
  refused : ∀ rate, t = [i.fetch (.ok rate)] → 10000 < rate.toNat →
    r = .error (.invalidRate rate) ∧ c' = c
  /-- A valid rate is remembered for its own fee. -/
  remembered : ∀ rate, t = [i.fetch (.ok rate)] → rate.toNat ≤ 10000 →
    c' = c.set i.kind rate ∧ (¬ i.IsQuote → r = .ok (.rate rate))
  /-- What is quoted is exact at the remembered rate of the fee, and at most the total. -/
  quoted : ∀ k amount included, i = .quote k amount included → ∀ x, r = .ok x →
    ∃ q rate, x = .quote q ∧ c'.get? k = some rate ∧ rate.toNat ≤ 10000 ∧
      q.Exact amount rate included ∧ q.fee ≤ q.total
  /-- Once the rate is known, there is a quote unless one of its numbers cannot be represented. -/
  unquoted : ∀ k amount included, i = .quote k amount included → ∀ rate, c'.get? k = some rate →
    ∀ e, r = .error e → e = .feeOverflow ∧ included = false ∧ (10000 ≤ rate.toNat ∨
      UInt256.size ≤ amount.toNat * rate.toNat ∨
      UInt256.size ≤ amount.toNat + amount.toNat * rate.toNat ⌈/⌉ (10000 - rate.toNat))

variable {σ : Type} {env : Environment surroundings σ} {s : σ} {c c' : RateCache} {k k' : FeeKind}
  {rate amount : UInt256} {included : Bool} {i : Inquiry} {t : Trace} {r : Except Failure Reply}

/-! ## The cache -/

@[simp] theorem get?_set (c : RateCache) (k k' : FeeKind) (rate : UInt256) :
    (c.set k rate).get? k' = if k = k' then some rate else c.get? k' := by
  cases k <;> cases k' <;> rfl

theorem checkRate_of_le (h : rate.toNat ≤ 10000) : checkRate rate = .ok rate :=
  if_neg (Nat.not_lt.2 h)

theorem checkRate_of_lt (h : 10000 < rate.toNat) : checkRate rate = .error (.invalidRate rate) :=
  if_pos h

/-! ## Quotes -/

/-- At a valid rate a quote is exact, or one of its numbers cannot be represented. -/
theorem quoteAt_cases (hrate : rate.toNat ≤ 10000) (amount : UInt256) (included : Bool) :
    (∃ q, quoteAt rate amount included = .ok q ∧ q.Exact amount rate included ∧ q.fee ≤ q.total) ∨
      quoteAt rate amount included = .error .feeOverflow ∧ included = false ∧
        (10000 ≤ rate.toNat ∨ UInt256.size ≤ amount.toNat * rate.toNat ∨
          UInt256.size ≤ amount.toNat + amount.toNat * rate.toNat ⌈/⌉ (10000 - rate.toNat)) := by
  cases included with
  | true =>
    have hexact := FeeQuote.exact_ofTotal amount hrate
    exact .inl ⟨_, rfl, hexact, hexact.fee_le hrate⟩
  | false =>
    unfold quoteAt
    cases hq : FeeQuote.ofNet? amount rate with
    | some q =>
      have hexact := (FeeQuote.exact_ofNet? hq).1
      exact .inl ⟨q, rfl, hexact, hexact.fee_le hrate⟩
    | none => exact .inr ⟨rfl, rfl, FeeQuote.ofNet?_eq_none_iff.1 hq⟩

/-! ## One inquiry -/

/-- What becomes of a rate that the contract has been asked for. -/
def received (c : RateCache) (k : FeeKind) :
    Except ContractFailure UInt256 → Except Failure (UInt256 × RateCache)
  | .ok rate => (checkRate rate).map fun rate => (rate, c.set k rate)
  | .error e => .error (.ofContract e)

theorem refresh_eq (c : RateCache) (k : FeeKind) : (c.refresh k).run =
    .ask (.contract (.rate k)) fun answer => .done (c.received k answer) := by
  refine congrArg (Program.ask (I := surroundings) (.contract (.rate k))) (funext fun answer => ?_)
  cases answer with
  | error e => rfl
  | ok rate =>
    show ((liftM (checkRate rate) : Action UInt256) >>= fun rate => pure (rate, c.set k rate)).run =
      .done ((checkRate rate).map fun rate => (rate, c.set k rate))
    cases checkRate rate <;> rfl

theorem inquire_refresh (c : RateCache) (k : FeeKind) : c.inquire (.refresh k) =
    .ask (.contract (.rate k)) fun answer => .done (match c.received k answer with
      | .ok (rate, c') => (.ok (.rate rate), c')
      | .error e => (.error e, c)) := by
  show (c.refresh k).run.bind _ = _
  rw [refresh_eq]
  refine congrArg (Program.ask (I := surroundings) (.contract (.rate k))) (funext fun answer => ?_)
  cases hr : c.received k answer with
  | error e => simp only [Program.bind, hr]
  | ok r => simp only [Program.bind, hr]

theorem inquire_quote_known (h : c.get? k = some rate) (amount : UInt256) (included : Bool) :
    c.inquire (.quote k amount included) =
      .done ((quoteAt rate amount included).map .quote, c) := by
  have hrate : c.rate k = pure (rate, c) := by
    unfold RateCache.rate
    rw [h]
  show (c.quote k amount included).run.bind _ = _
  unfold quote
  rw [hrate]
  rfl

theorem inquire_quote_unknown (h : c.get? k = none) (amount : UInt256) (included : Bool) :
    c.inquire (.quote k amount included) =
      .ask (.contract (.rate k)) fun answer => .done (match c.received k answer with
        | .ok (rate, c') => ((quoteAt rate amount included).map .quote, c')
        | .error e => (.error e, c)) := by
  have hrate : c.rate k = c.refresh k := by
    unfold RateCache.rate
    rw [h]
  show (c.quote k amount included).run.bind _ = _
  unfold quote
  rw [hrate, Action.run_bind, refresh_eq]
  refine congrArg (Program.ask (I := surroundings) (.contract (.rate k))) (funext fun answer => ?_)
  cases hr : c.received k answer with
  | error e => simp only [Program.bind, hr]
  | ok r =>
    simp only [Program.bind, hr]
    rfl

theorem Inquiry.fetch_eq_iff {a b : Except ContractFailure UInt256} :
    [i.fetch a] = [i.fetch b] ↔ a = b := by
  unfold fetch
  simp

theorem answers_failed (h : i.IsQuote → c.get? i.kind = none) (e : ContractFailure) :
    c.Answers i [i.fetch (.error e)] (.error (.ofContract e)) c where
  asks := .inr ⟨⟨_, rfl⟩, h⟩
  kept _ := rfl
  failed e' he := by
    cases Inquiry.fetch_eq_iff.1 he
    exact ⟨rfl, rfl⟩
  refused rate he := nomatch Inquiry.fetch_eq_iff.1 he
  remembered rate he := nomatch Inquiry.fetch_eq_iff.1 he
  quoted k amount included hi x hx := nomatch hx
  unquoted k amount included hi rate hrate := by
    subst hi
    rw [show c.get? k = none from h trivial] at hrate
    cases hrate

theorem answers_refused (h : i.IsQuote → c.get? i.kind = none) (hrate : 10000 < rate.toNat) :
    c.Answers i [i.fetch (.ok rate)] (.error (.invalidRate rate)) c where
  asks := .inr ⟨⟨_, rfl⟩, h⟩
  kept _ := rfl
  failed e he := nomatch Inquiry.fetch_eq_iff.1 he
  refused rate' he _ := by
    cases Inquiry.fetch_eq_iff.1 he
    exact ⟨rfl, rfl⟩
  remembered rate' he hrate' := by
    cases Inquiry.fetch_eq_iff.1 he
    omega
  quoted k amount included hi x hx := nomatch hx
  unquoted k amount included hi rate hrate := by
    subst hi
    rw [show c.get? k = none from h trivial] at hrate
    cases hrate

/-- The contract gives a valid rate on a refresh. -/
theorem answers_refreshed (c : RateCache) (k : FeeKind) (hrate : rate.toNat ≤ 10000) :
    c.Answers (.refresh k) [Inquiry.fetch (.refresh k) (.ok rate)] (.ok (.rate rate))
      (c.set k rate) where
  asks := .inr ⟨⟨_, rfl⟩, fun h => False.elim h⟩
  kept h := nomatch h
  failed e he := nomatch Inquiry.fetch_eq_iff.1 he
  refused rate' he hrate' := by
    cases Inquiry.fetch_eq_iff.1 he
    omega
  remembered rate' he _ := by
    cases Inquiry.fetch_eq_iff.1 he
    exact ⟨rfl, fun _ => rfl⟩
  quoted k amount included hi := nomatch hi
  unquoted k amount included hi := nomatch hi

/-- A quote is given at the rate `rate`, which is known now, whether it was fetched or not. -/
theorem answers_quoted (hrate : rate.toNat ≤ 10000) (amount : UInt256) (included : Bool)
    (hc' : c'.get? k = some rate)
    (h : c.get? k = some rate ∧ t = [] ∧ c' = c ∨ c.get? k = none ∧ c' = c.set k rate ∧
      t = [Inquiry.fetch (.quote k amount included) (.ok rate)]) :
    c.Answers (.quote k amount included) t ((quoteAt rate amount included).map .quote) c' where
  asks := by
    rcases h with ⟨hknown, rfl, -⟩ | ⟨hunknown, -, rfl⟩
    · exact .inl ⟨rfl, trivial, by rw [Inquiry.kind, hknown]; exact Option.some_ne_none rate⟩
    · exact .inr ⟨⟨_, rfl⟩, fun _ => hunknown⟩
  kept ht := by
    rcases h with ⟨-, -, rfl⟩ | ⟨-, -, rfl⟩
    · rfl
    · cases ht
  failed e he := by
    rcases h with ⟨-, rfl, -⟩ | ⟨-, -, rfl⟩
    · cases he
    · cases Inquiry.fetch_eq_iff.1 he
  refused rate' he hrate' := by
    rcases h with ⟨-, rfl, -⟩ | ⟨-, -, rfl⟩
    · cases he
    · cases Inquiry.fetch_eq_iff.1 he
      omega
  remembered rate' he _ := by
    rcases h with ⟨-, rfl, -⟩ | ⟨-, rfl, rfl⟩
    · cases he
    · cases Inquiry.fetch_eq_iff.1 he
      exact ⟨rfl, fun hi => absurd trivial hi⟩
  quoted k' amount' included' hi x hx := by
    cases hi
    rcases quoteAt_cases hrate amount included with ⟨q, hq, hexact, hle⟩ | ⟨hq, -⟩
    · rw [hq] at hx
      cases hx
      exact ⟨q, rate, rfl, hc', hrate, hexact, hle⟩
    · rw [hq] at hx
      cases hx
  unquoted k' amount' included' hi rate' hrate' e he := by
    cases hi
    rw [hc'] at hrate'
    cases hrate'
    rcases quoteAt_cases hrate amount included with ⟨q, hq, -⟩ | ⟨hq, hincluded, hlarge⟩
    · rw [hq] at he
      cases he
    · rw [hq] at he
      cases he
      exact ⟨rfl, hincluded, hlarge⟩

theorem received_cases (c : RateCache) (k : FeeKind) (answer : Except ContractFailure UInt256) :
    (∃ e, answer = .error e ∧ c.received k answer = .error (.ofContract e)) ∨
      (∃ rate, answer = .ok rate ∧ 10000 < rate.toNat ∧
        c.received k answer = .error (.invalidRate rate)) ∨
      ∃ rate, answer = .ok rate ∧ rate.toNat ≤ 10000 ∧
        c.received k answer = .ok (rate, c.set k rate) := by
  cases answer with
  | error e => exact .inl ⟨e, rfl, rfl⟩
  | ok rate =>
    rcases Nat.lt_or_ge 10000 rate.toNat with hrate | hrate
    · exact .inr (.inl ⟨rate, rfl, hrate, by rw [received, checkRate_of_lt hrate]; rfl⟩)
    · exact .inr (.inr ⟨rate, rfl, hrate, by rw [received, checkRate_of_le hrate]; rfl⟩)

theorem answers_inquire (hc : c.Valid) (h : (c.inquire i).Yields t (r, c')) :
    c.Answers i t r c' := by
  cases i with
  | quote k amount included =>
    cases hk : c.get? k with
    | some rate =>
      rw [inquire_quote_known hk, Program.yields_done_iff] at h
      obtain ⟨rfl, hr⟩ := h
      cases hr
      exact answers_quoted (hc k rate hk) amount included hk (.inl ⟨hk, rfl, rfl⟩)
    | none =>
      rw [inquire_quote_unknown hk, Program.yields_ask_iff] at h
      obtain ⟨answer, t', rfl, h⟩ := h
      obtain ⟨rfl, hr⟩ := Program.yields_done_iff.1 h
      rcases received_cases c k answer with ⟨e, rfl, hreceived⟩ | ⟨rate, rfl, hrate, hreceived⟩ |
        ⟨rate, rfl, hrate, hreceived⟩
      · rw [hreceived] at hr
        cases hr
        exact answers_failed (fun _ => hk) e
      · rw [hreceived] at hr
        cases hr
        exact answers_refused (fun _ => hk) hrate
      · rw [hreceived] at hr
        cases hr
        have hset : (c.set k rate).get? k = some rate := by simp
        exact answers_quoted hrate amount included hset (.inr ⟨hk, rfl, rfl⟩)
  | refresh k =>
    rw [inquire_refresh, Program.yields_ask_iff] at h
    obtain ⟨answer, t', rfl, h⟩ := h
    obtain ⟨rfl, hr⟩ := Program.yields_done_iff.1 h
    have hrefresh : (Inquiry.refresh k).IsQuote → c.get? k = none := fun h => False.elim h
    rcases received_cases c k answer with ⟨e, rfl, hreceived⟩ | ⟨rate, rfl, hrate, hreceived⟩ |
      ⟨rate, rfl, hrate, hreceived⟩
    · rw [hreceived] at hr
      cases hr
      exact answers_failed hrefresh e
    · rw [hreceived] at hr
      cases hr
      exact answers_refused hrefresh hrate
    · rw [hreceived] at hr
      cases hr
      exact answers_refreshed c k hrate

/-! ## Inquiries one after another -/

theorem rates_append (k : FeeKind) (t t' : Trace) :
    Trace.rates k (t ++ t') = Trace.rates k t ++ Trace.rates k t' := List.filterMap_append

theorem rates_failed (k : FeeKind) (i : Inquiry) (e : ContractFailure) :
    Trace.rates k [i.fetch (.error e)] = [] := rfl

theorem rates_fetched (k : FeeKind) (i : Inquiry) (rate : UInt256) :
    Trace.rates k [i.fetch (.ok rate)] =
      if i.kind = k ∧ rate.toNat ≤ 10000 then [rate] else [] := by
  have hle : rate ≤ FeeQuote.wholeRate ↔ rate.toNat ≤ 10000 := Iff.rfl
  unfold Trace.rates Inquiry.fetch
  by_cases h : i.kind = k ∧ rate.toNat ≤ 10000
  · simp [Exchange.rate?, hle, h]
  · simp [Exchange.rate?, hle, h]

theorem le_of_mem_rates {t : Trace} (h : rate ∈ Trace.rates k t) : rate.toNat ≤ 10000 := by
  obtain ⟨x, -, hx⟩ := List.mem_filterMap.1 h
  unfold Exchange.rate? at hx
  split at hx
  · split at hx
    case isTrue hvalid =>
      cases hx
      exact hvalid.2
    case isFalse => cases hx
  · cases hx

/-- After an inquiry the rate of each fee is the last valid one that was given for it, or else the
one that was known before. -/
theorem Answers.get?_eq (h : c.Answers i t r c') (k : FeeKind) :
    c'.get? k = (Trace.rates k t).getLast?.or (c.get? k) := by
  rcases h.asks with ⟨rfl, -, -⟩ | ⟨⟨answer, rfl⟩, -⟩
  · rw [h.kept rfl]
    rfl
  · cases answer with
    | error e =>
      rw [(h.failed e rfl).2, rates_failed]
      rfl
    | ok rate =>
      rw [rates_fetched]
      rcases Nat.lt_or_ge 10000 rate.toNat with hrate | hrate
      · rw [(h.refused rate rfl hrate).2, if_neg (by omega)]
        rfl
      · rw [(h.remembered rate rfl hrate).1, get?_set]
        by_cases hk : i.kind = k
        · rw [if_pos hk, if_pos ⟨hk, hrate⟩]
          rfl
        · rw [if_neg hk, if_neg fun hkr => hk hkr.1]
          rfl

/-- The last valid rates of the trace, and no other ones, are known. -/
def Remembers (c : RateCache) (t : Trace) : Prop := ∀ k, c.get? k = (Trace.rates k t).getLast?

theorem Remembers.valid (h : c.Remembers t) : c.Valid := by
  intro k rate hrate
  rw [h k] at hrate
  exact le_of_mem_rates (List.mem_of_getLast? hrate)

theorem Remembers.inquire {log : Trace} (h : c.Remembers log) (ha : c.Answers i t r c') :
    c'.Remembers (log ++ t) := by
  intro k
  rw [ha.get?_eq k, h k, rates_append, List.getLast?_append]

theorem Remembers.inquireAll {log : Trace} (h : c.Remembers log) (is : List Inquiry) (s : σ) :
    ((c.inquireAll is).run env s).1.Remembers (log ++ (c.inquireAll is).trace env s) := by
  induction is generalizing c log s with
  | nil =>
    rw [show log ++ (c.inquireAll []).trace env s = log from List.append_nil log]
    exact h
  | cons i is ih =>
    have hanswers : c.Answers i ((c.inquire i).trace env s) ((c.inquire i).run env s).1.1
        ((c.inquire i).run env s).1.2 :=
      answers_inquire h.valid (Program.yields_trace env (c.inquire i) s)
    unfold RateCache.inquireAll
    rw [Program.run_bind, Program.trace_bind, ← List.append_assoc]
    exact ih (h.inquire hanswers) _

/-- Let quotes and refreshes be asked for one after another, whatever the contract answers. For each
fee the last valid rate that the contract has given for it is known, or none if it has given none,
and the next inquiry is answered as it should be. -/
theorem rates_remembered (env : Environment surroundings σ) (s : σ) (earlier : List Inquiry)
    (i : Inquiry) :
    let p := ({} : RateCache).inquireAll earlier
    let c := (p.run env s).1
    let s' := (p.run env s).2
    (∀ k, c.get? k = (Trace.rates k (p.trace env s)).getLast?) ∧
      c.Answers i ((c.inquire i).trace env s') ((c.inquire i).run env s').1.1
        ((c.inquire i).run env s').1.2 := by
  intro p c s'
  have hempty : ({} : RateCache).Remembers [] := fun k => by cases k <;> rfl
  have hknown : c.Remembers (p.trace env s) := hempty.inquireAll earlier s
  exact ⟨hknown, answers_inquire hknown.valid (Program.yields_trace env (c.inquire i) s')⟩

end RateCache

end ShieldedWallet
