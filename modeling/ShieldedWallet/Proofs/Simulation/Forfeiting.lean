import ShieldedWallet.Proofs.Simulation.Upgrading

/-!
# Refused transactions

A transaction is refused for one of six reasons. As long as it has brought no call, the ledger stays
as it was. But the call that it brings is taken from the ledger before anything is checked about it,
and it is not put back: nothing else has changed then, but no transaction can bring the call again,
not even one that the ledger would have accepted in the first place.
-/

namespace ShieldedWallet.Simulation.Ledger

variable {l l' : Ledger} {tx tx' : TransactionRequest} {n : Nat} {m : Movement} {c : Call m}
  {reason : String}

/-- Why a transaction is refused, and the ledger afterwards. -/
inductive Refusal (l : Ledger) (tx : TransactionRequest) : String → Ledger → Prop where
  | elsewhere (h : tx.target ≠ address) :
      Refusal l tx "transaction is not addressed to the shielder" l
  | malformed (ht : tx.target = address) (h : callNumber? tx.data = none) :
      Refusal l tx "malformed calldata" l
  | unknownCall {n : Nat} (ht : tx.target = address) (hn : callNumber? tx.data = some n)
      (h : l.call? n = none) : Refusal l tx "unknown or already executed calldata" l
  | wrongValue {n : Nat} {m : Movement} {c : Call m} (hb : l.brought? tx = some (n, ⟨m, c⟩))
      (h : tx.value ≠ m.attached c.amount) :
      Refusal l tx ("attached value " ++ tx.value.text ++ " does not match " ++
        (m.attached c.amount).text) (l.used n)
  | unknownRoot {n : Nat} {m : Movement} {c : Call m} {root : Scalar}
      (hb : l.brought? tx = some (n, ⟨m, c⟩)) (hv : tx.value = m.attached c.amount)
      (hr : c.root? = some root) (h : root ∉ l.roots) :
      Refusal l tx "unknown merkle root" (l.used n)
  | spent {n : Nat} {m : Movement} {c : Call m} (hb : l.brought? tx = some (n, ⟨m, c⟩))
      (hv : tx.value = m.attached c.amount) (hk : ∀ root, c.root? = some root → root ∈ l.roots)
      (h : l.nullifierBlock? c.key ≠ none) : Refusal l tx "nullifier already spent" (l.used n)

/-! ## Why a call is refused -/

theorem perform_unknown {root : Scalar} (hroot : c.root? = some root) (h : root ∉ l.roots) :
    l.perform m c = .error "unknown merkle root" := by
  cases m with
  | opening => cases hroot
  | deposit =>
    obtain rfl := Option.some.inj hroot
    exact if_neg h
  | withdrawal =>
    obtain rfl := Option.some.inj hroot
    exact if_neg h

theorem perform_spent (hknown : ∀ root, c.root? = some root → root ∈ l.roots)
    (h : l.nullifierBlock? c.key ≠ none) : l.perform m c = .error "nullifier already spent" := by
  have hany : l.blocks.any (·.nullifierHash = c.key) = true := by
    rw [ne_eq, nullifierBlock?_eq_none_iff] at h
    simpa using h
  rw [perform_eq hknown]
  exact if_pos hany

/-- A transaction brings its call with the wrong value, or has the call performed. -/
theorem execute_brought (h : l.brought? tx = some (n, ⟨m, c⟩)) : l.execute tx =
    if tx.value = m.attached c.amount then
      match (l.used n).perform m c with
      | .ok (hash, l') => (.ok hash, l')
      | .error reason => (.error reason, l.used n)
    else (.error ("attached value " ++ tx.value.text ++ " does not match " ++
      (m.attached c.amount).text), l.used n) := by
  obtain ⟨ht, hn, hc⟩ := brought?_eq_some_iff.1 h
  by_cases hvalue : tx.value = m.attached c.amount
  · unfold used
    cases hperform : ({ l with encoded := l.encoded.set n none } : Ledger).perform m c with
    | ok r => simp [execute, ht, hn, hc, hvalue, hperform]
    | error reason => simp [execute, ht, hn, hc, hvalue, hperform]
  · simp [execute, ht, hn, hc, hvalue, used]

theorem refusal_of_execute (h : l.execute tx = (.error reason, l')) : l.Refusal tx reason l' := by
  cases hb : l.brought? tx with
  | none =>
    -- The transaction gets no further than to its call.
    by_cases ht : tx.target = address
    · cases hn : callNumber? tx.data with
      | none =>
        simp only [execute, ht, hn, ne_eq, not_true_eq_false, if_false] at h
        cases h
        exact .malformed ht hn
      | some n =>
        cases hc : l.call? n with
        | none =>
          simp only [execute, ht, hn, hc, ne_eq, not_true_eq_false, if_false] at h
          cases h
          exact .unknownCall ht hn hc
        | some call =>
          have hbrought := brought?_eq_some_iff.2 ⟨ht, hn, hc⟩
          rw [hb] at hbrought
          cases hbrought
    · simp only [execute, if_pos ht, ne_eq] at h
      cases h
      exact .elsewhere ht
  | some nc =>
    obtain ⟨n, m, c⟩ := nc
    rw [execute_brought hb] at h
    by_cases hvalue : tx.value = m.attached c.amount
    · rw [if_pos hvalue] at h
      by_cases hknown : ∀ root, c.root? = some root → root ∈ l.roots
      · by_cases hfresh : l.nullifierBlock? c.key = none
        · rw [perform_eq (l := l.used n) hknown, append_ok (l := l.used n) hfresh] at h
          cases h
        · rw [perform_spent (l := l.used n) hknown hfresh] at h
          cases h
          exact .spent hb hvalue hknown hfresh
      · obtain ⟨root, hunknown⟩ := not_forall.1 hknown
        obtain ⟨hroot, hmem⟩ := Classical.not_imp.1 hunknown
        rw [perform_unknown (l := l.used n) hroot hmem] at h
        cases h
        exact .unknownRoot hb hvalue hroot hmem
    · rw [if_neg hvalue] at h
      cases h
      exact .wrongValue hb hvalue

/-! ## Calls that are gone -/

/-- Once a transaction has brought a call and was refused, every transaction with its data is. -/
theorem refused_after_used (hb : l.brought? tx = some (n, ⟨m, c⟩)) (hdata : tx'.data = tx.data)
    (acts : List Act) : ∃ reason,
      ((l.used n).after acts).execute tx' = (.error reason, (l.used n).after acts) := by
  obtain ⟨-, hnumber, hcall⟩ := brought?_eq_some_iff.1 hb
  have hn : n < (l.used n).encoded.length := by
    have hlt := lt_of_call?_eq_some hcall
    simpa [used] using hlt
  have hgone := call?_after_eq_none hn (call?_used l n) acts
  rw [← hdata] at hnumber
  exact execute_of_brought?_none (brought?_eq_none hnumber hgone)

theorem used_ne {call : EncodedCall} (h : l.call? n = some call) : l.used n ≠ l := by
  intro heq
  have hgone := call?_used l n
  rw [heq, h] at hgone
  cases hgone

/-- A refused transaction has one of six reasons to be refused. It leaves the whole ledger as it was
just when it has brought no call. The call that it has brought is used up, with nothing else
changed, and no transaction with the same data is accepted ever after, though the ledger would have accepted
the call from any transaction that brings it properly. -/
theorem refused_transaction (h : l.execute tx = (.error reason, l')) :
    l.Refusal tx reason l' ∧ (l' = l ↔ l.brought? tx = none) ∧
      ∀ (n : Nat) (m : Movement) (c : Call m), l.brought? tx = some (n, ⟨m, c⟩) →
        l' = { l with encoded := l.encoded.set n none } ∧
        (∀ tx', l.Brings tx' n c → (l.execute tx').1 = .ok (l.eventOf c).txHash) ∧
        ∀ acts tx', tx'.data = tx.data →
          ∃ reason', (l'.after acts).execute tx' = (.error reason', l'.after acts) := by
  have hrefusal := refusal_of_execute h
  have hused : ∀ (n : Nat) (m : Movement) (c : Call m), l.brought? tx = some (n, ⟨m, c⟩) →
      l' = l.used n := by
    intro n m c hb
    rcases execute_of_brought? hb with ⟨-, reason', he⟩ | ⟨-, hash, l₁, -, he⟩
    · rw [he] at h
      exact (Prod.mk.inj h).2.symm
    · rw [he] at h
      cases h
  refine ⟨hrefusal, ⟨fun hl => ?_, fun hb => ?_⟩, fun n m c hb => ?_⟩
  · by_contra hne
    obtain ⟨⟨n, m, c⟩, hb⟩ := Option.ne_none_iff_exists'.1 hne
    exact used_ne (brought?_eq_some_iff.1 hb).2.2 ((hused n m c hb).symm.trans hl)
  · obtain ⟨reason', he⟩ := execute_of_brought?_none hb
    rw [he] at h
    exact (Prod.mk.inj h).2.symm
  · obtain rfl := hused n m c hb
    exact ⟨rfl, fun tx' hbrings => hbrings.execute.1,
      fun acts tx' hdata => refused_after_used hb hdata acts⟩

/-- The opening of the account 7 is first sent with 1 instead of 100. Then it is sent properly, and
refused, though it would have been accepted before. -/
theorem refused_transaction_underpaid7 :
    let l := ({} : Ledger).encoding opening7
    let underpaid : TransactionRequest := ⟨address, address, Bytes.ofNatBE 8 0, 1⟩
    let paid : TransactionRequest := ⟨address, address, Bytes.ofNatBE 8 0, 100⟩
    ({} : Ledger).answer (.encode .opening .supported address opening7) = (.ok paid.data, l) ∧
      l.execute underpaid = (.error ("attached value " ++ (1 : UInt256).text ++ " does not match " ++
        (100 : UInt256).text), l.used 0) ∧ l.used 0 ≠ l ∧
      (l.execute paid).1 = .ok (l.eventOf opening7).txHash ∧
      ∃ reason, (l.used 0).execute paid = (.error reason, l.used 0) := by
  intro l underpaid paid
  have hencoded := admits_opening7.toVets.encode address admits_opening7.checked
  have hpaid : l.Brings paid 0 opening7 := admits_opening7.brings address
  have hbrought : l.brought? underpaid = some (0, ⟨.opening, opening7⟩) :=
    brought?_eq_some_iff.2 ⟨rfl, (brought?_eq_some_iff.1 hpaid.brought).2⟩
  have hvalue : (1 : UInt256) ≠ Movement.opening.attached opening7.amount := by decide
  have hrefused := execute_brought hbrought
  rw [if_neg hvalue] at hrefused
  obtain ⟨-, hsame, hused⟩ := refused_transaction hrefused
  obtain ⟨-, haccepted, hgone⟩ := hused 0 .opening opening7 hbrought
  refine ⟨hencoded, hrefused, fun heq => ?_, haccepted paid hpaid, hgone [] paid rfl⟩
  rw [hsame.1 heq] at hbrought
  cases hbrought

end ShieldedWallet.Simulation.Ledger
