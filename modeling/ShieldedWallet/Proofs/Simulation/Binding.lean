import ShieldedWallet.Proofs.Payment.Packing
import ShieldedWallet.Proofs.Simulation.Accepting
import ShieldedWallet.Proofs.Simulation.Digests

/-!
# What the proof of a withdrawal is bound to

The ledger checks the proof of a withdrawal for a statement that it puts together itself: the value is
the amount of the call, and the commitment is computed from its payout. So a proof cannot be used with
another payout or another amount, unless something collides. Another amount with the same residue,
however, is the same value.
-/

namespace ShieldedWallet.Simulation

variable {version expected : ContractVersion} {l : Ledger} {sender : Address}

/-- The statement that the ledger checks the proof of a withdrawal for. -/
def checkedStatement (version : ContractVersion) (c : Call .withdrawal) : WithdrawalStatement :=
  ⟨{ c.statement.toSpendStatement with value := .ofUInt256 c.amount }, c.terms.commitment version⟩

/-- The ledger encodes the call. -/
def Ledger.Encodable (l : Ledger) (version : ContractVersion) (sender : Address)
    (c : Call .withdrawal) : Prop :=
  ∃ data, (l.answer (.encode .withdrawal version sender c)).1 = .ok data

/-- The ledger refuses to encode the call. -/
def Ledger.Refuses (l : Ledger) (version : ContractVersion) (sender : Address)
    (c : Call .withdrawal) : Prop :=
  ∃ e, (l.answer (.encode .withdrawal version sender c)).1 = .error e

theorem Ledger.refuses_of_not_encodable {c : Call .withdrawal} (h : ¬ l.Encodable version sender c) :
    l.Refuses version sender c := by
  cases hanswer : (l.answer (.encode .withdrawal version sender c)).1 with
  | ok data => exact absurd ⟨data, hanswer⟩ h
  | error e => exact ⟨e, hanswer⟩

theorem Ledger.checkedCall_withdrawal_iff {c c' : Call .withdrawal} :
    checkedCall version .withdrawal c = .ok c' ↔ c.terms.fee ≤ c.amount ∧
      c.proof = proof .withdrawal (checkedStatement version c) ∧
      c' = { c with statement := checkedStatement version c } := by
  have hfee : ¬ c.amount < c.terms.fee ↔ c.terms.fee ≤ c.amount := by
    rw [UInt256.lt_iff, UInt256.le_iff, Nat.not_lt]
  simp only [checkedCall]
  by_cases hlt : c.amount < c.terms.fee
  · simp [if_pos hlt, mt hfee.2 (not_not.2 hlt)]
  · rw [if_neg hlt]
    by_cases hp : c.proof = proof .withdrawal (checkedStatement version c)
    · have hp' := hp
      unfold checkedStatement at hp'
      rw [if_pos hp', Except.ok.injEq, and_iff_right (hfee.1 hlt), and_iff_right hp]
      exact eq_comm
    · have hp' := hp
      unfold checkedStatement at hp'
      rw [if_neg hp']
      simp [hp]

/-- A withdrawal is encoded if it was made for the deployed version, its amount covers the fee, and its
proof is the proof of the statement that the ledger puts together. -/
theorem Ledger.encodable_iff {c : Call .withdrawal} : l.Encodable version sender c ↔
    version = l.version ∧ c.terms.fee ≤ c.amount ∧
      c.proof = proof .withdrawal (checkedStatement version c) := by
  constructor
  · rintro ⟨data, hdata⟩
    simp only [answer] at hdata
    cases hencode : ({ l with calls := l.calls + 1 } : Ledger).encode .withdrawal version c with
    | error e =>
      rw [hencode] at hdata
      cases hdata
    | ok r =>
      obtain ⟨hversion, c', hchecked, -, -⟩ := encode_eq_ok hencode
      obtain ⟨hfee, hproof, -⟩ := checkedCall_withdrawal_iff.1 hchecked
      exact ⟨hversion, hfee, hproof⟩
  · rintro ⟨hversion, hfee, hproof⟩
    have hchecked := checkedCall_withdrawal_iff.2 ⟨hfee, hproof, rfl⟩
    have hdeployed : ({ l with calls := l.calls + 1 } : Ledger).checkVersion version = .ok () :=
      if_pos hversion
    refine ⟨Bytes.ofNatBE 8 l.encoded.length, ?_⟩
    simp only [answer, encode]
    rw [hdeployed, hchecked]
    rfl

/-- Two withdrawals with one proof, encoded for one version, are checked as one statement, or the bytes
of the two proofs collide. -/
theorem Ledger.Encodable.checked_eq_or_collide {l' : Ledger} {sender' : Address}
    {c c' : Call .withdrawal} (h : l.Encodable version sender c) (h' : l'.Encodable version sender' c')
    (hproof : c'.proof = c.proof) : checkedStatement version c = checkedStatement version c' ∨
      Collide (proofBytes .withdrawal (checkedStatement version c))
        (proofBytes .withdrawal (checkedStatement version c')) := by
  obtain ⟨-, -, hc⟩ := encodable_iff.1 h
  obtain ⟨-, -, hc'⟩ := encodable_iff.1 h'
  have hproofs : proof .withdrawal (checkedStatement version c) =
      proof .withdrawal (checkedStatement version c') := by
    rw [← hc, ← hc', hproof]
  exact proof_eq_or_collide (m := .withdrawal) hproofs

/-- What a call says of its commitment is ignored. -/
theorem Ledger.answer_commitment (l : Ledger) (version : ContractVersion) (sender : Address)
    (c : Call .withdrawal) (commitment : Scalar) :
    l.answer (.encode .withdrawal version sender
        { c with statement := { c.statement with commitment } }) =
      l.answer (.encode .withdrawal version sender c) := rfl

/-! ## Prepared withdrawals -/

section Prepared

variable {m : Movement} {a : Account} {amount amount' : UInt256} {payout : Payout} {t : Trace}
  {c : Calldata .withdrawal} {e : NoteEvent}

/-- What the simulated prover says that it has proved is proved, and a statement of the witness. -/
theorem proved_of_answer {w : Witness m} {proof : Bytes} {proved : Statement m}
    (h : simulated (.prove m w) = .ok (proof, proved)) :
    proof = Simulation.proof m proved ∧ statement? m w = .ok proved := by
  have hproved : (statement? m w).map (fun s => (Simulation.proof m s, s)) = .ok (proof, proved) := h
  cases hs : statement? m w with
  | error e =>
    rw [hs] at hproved
    cases hproved
  | ok s =>
    rw [hs] at hproved
    cases hproved
    exact ⟨rfl, rfl⟩

/-- What the simulated prover certifies is proved. -/
theorem certified_proof {w : Witness m} {statement : Action (Statement m)} {stated : Statement m}
    {proof : Bytes} (h : (Calldata.certify m w statement).run.Yields t (.ok (stated, proof)))
    (ht : t.AnsweredBy simulated) : proof = Simulation.proof m stated := by
  obtain ⟨t₁, t₁', ⟨proof', proved⟩, rfl, h₀, h₁⟩ := Action.yields_bind_ok h
  obtain rfl := Query.yields_program_iff.1 (Action.yields_ofProgram_ok_iff.1 h₀)
  obtain ⟨hproof, -⟩ := proved_of_answer ht.left.eq
  obtain ⟨t₂, t₂', stated', rfl, -, h₂⟩ := Action.yields_bind_ok h₁
  by_cases hne : proved ≠ stated'
  · rw [if_pos hne] at h₂
    obtain ⟨_, _, _, _, h₃, _⟩ := Action.yields_bind_ok h₂
    simp at h₃
  · rw [if_neg hne] at h₂
    obtain ⟨t₃, t₃', valid, rfl, -, h₃⟩ := Action.yields_bind_ok h₂
    cases valid with
    | false => simp at h₃
    | true =>
      cases (Action.yields_pure_iff.1 h₃).2
      rw [hproof, not_not.1 hne]

/-- A withdrawal that was prepared with the simulated prover is proved as the ledger checks it. -/
theorem prepared_withdrawal
    (h : (Withdrawal.prepare version a amount payout expected).run.Yields t (.ok c))
    (ht : t.AnsweredBy simulated) :
    c.version = expected ∧ c.call.amount = amount ∧ c.call.terms = payout ∧
      c.call.statement = checkedStatement expected c.call ∧
      c.call.proof = proof .withdrawal c.call.statement := by
  obtain ⟨t₀, t₀', u, rfl, -, h₀⟩ := Action.yields_bind_ok h
  obtain ⟨t₁, t₁', s, rfl, h₁, h₂⟩ := Action.yields_bind_ok h₀
  obtain ⟨t₂, t₂', ⟨stated, proof⟩, rfl, h₃, h₄⟩ := Action.yields_bind_ok h₂
  obtain ⟨rfl, hc⟩ := Action.yields_pure_iff.1 h₄
  cases hc
  have hproof := certified_proof h₃ ht.right.right.left
  obtain ⟨t₃, -, h₅⟩ := Calldata.yields_certify h₃
  obtain ⟨t₄, t₅, st, rfl, h₆, h₇⟩ := Action.yields_bind_ok h₅
  cases (Action.yields_pure_iff.1 h₇).2
  have hvalue : st.value = .ofUInt256 amount := by
    rw [Spending.yields_statement_value h₆, Spending.yields_gather_value h₁]
  refine ⟨rfl, rfl, rfl, ?_, hproof⟩
  simp only [checkedStatement, ← hvalue]

/-! ## Another amount -/

/-- The call with another amount. -/
def withAmount (c : Calldata .withdrawal) (amount : UInt256) : Calldata .withdrawal :=
  { c with call := { c.call with amount } }

/-- Balances with one residue make one note. -/
theorem isNote_of_residue_eq {f : Oracle proving} {id note : Scalar} {nonce : UInt64} {b b' : UInt256}
    (h : Note.IsNote f version id nonce b note) (hb : Scalar.ofUInt256 b' = .ofUInt256 b) :
    Note.IsNote f version id nonce b' note := by
  unfold Note.IsNote Note.balanceInputs at h ⊢
  rwa [hb]

/-- Withdrawing amounts with one residue leaves balances with one residue. -/
theorem residue_left {balance amount amount' b b' : UInt256} (hb : balance.sub? amount = some b)
    (hb' : balance.sub? amount' = some b') (h : Scalar.ofUInt256 amount' = .ofUInt256 amount) :
    Scalar.ofUInt256 b' = .ofUInt256 b := by
  have hsum := UInt256.sub?_eq_some_iff.1 hb
  have hsum' := UInt256.sub?_eq_some_iff.1 hb'
  rw [Scalar.ext_iff, Scalar.toNat_ofUInt256, Scalar.toNat_ofUInt256] at h ⊢
  simp only [Scalar.modulus] at h ⊢
  omega

/-- The event of a withdrawal whose amount was replaced by another one with the same residue. The owner
finds it in its block if the balance covers the new amount, and otherwise finds none. -/
theorem eval_select_withAmount {o : Oracle surroundings} (ho : ∀ q, o (.prover q) = simulated q)
    (hc : c.call.Continues simulated version a)
    (hamount : Scalar.ofUInt256 amount' = .ofUInt256 c.call.amount) (hm : e.movement = .withdrawal)
    (hv : e.version = version) (he : e.amount = amount') (hn : e.note = c.call.note) (block : UInt64) :
    (History.select version a block [e]).run.eval o =
      if amount' ≤ a.balance then .ok e else .error (.history (.eventCount block 0)) := by
  obtain ⟨b, hb, hnote⟩ := hc.note
  have happlies : e.movement.appliesTo a = true := by
    rw [hm]
    exact hc.appliesTo (by simp)
  by_cases hle : amount' ≤ a.balance
  · rw [if_pos hle]
    obtain ⟨b', hb'⟩ : ∃ b', a.balance.sub? amount' = some b' := by
      refine Option.ne_none_iff_exists'.1 fun hnone => ?_
      have hlt := UInt256.sub?_eq_none_iff.1 hnone
      rw [UInt256.le_iff] at hle
      omega
    have hmatches : e.Matches simulated version a := by
      refine ⟨happlies, hc.nonce_ne, b', ?_, ?_⟩
      · rw [hm, he]
        exact hb'
      · rw [hn]
        exact isNote_of_residue_eq hnote (residue_left hb hb' hamount)
    exact eval_select ho hmatches hv block
  · rw [if_neg hle]
    refine eval_select_none ?_ block
    have hnone : e.movement.balanceAfter? a.balance e.amount = none := by
      rw [hm, he]
      exact UInt256.sub?_eq_none_iff.2 (Nat.not_le.1 hle)
    rw [NoteEvent.claimed?, if_pos happlies, Note.next?, hnone]
    rfl

end Prepared

/-! ## One prepared withdrawal -/

/-- A ledger on which the account 7 has been opened with 10. -/
def openedWorld7 : World :=
  { World.new .direct 1 with ledger := (Ledger.Operation.register 7 10).apply {} }

/-- The account 7 opened with 10. -/
def holding7 : Holding := ⟨7, 1, 10, note 7 (secrets 7 0) (.ofUInt256 10), some 0⟩

theorem plain7 : openedWorld7.Plain := ⟨⟨rfl, rfl⟩, rfl, rfl⟩

/-- The account 7 can withdraw 1. -/
theorem movable7 (c storage : Nat) :
    Movable (World.oracle c storage openedWorld7) .supported .withdrawal holding7 1 9 := by
  have hleaf : openedWorld7.ledger.leaves[(0 : UInt64).toNat]? = some holding7.note := by
    show ((Ledger.Operation.register 7 10).apply {}).leaves[0]? = _
    rw [Ledger.apply_register (Ledger.nullifierBlock?_eq_none_iff.2 (by simp))]
    rfl
  have hnote : Note.IsNote simulated .supported 7 0 10 holding7.note := (isNote_simulated rfl).2 rfl
  have hfirst : (Account.opened holding7).nonce - 1 = 0 := by decide
  have hsound : Account.Sound simulated .supported (.opened holding7) :=
    .inr ⟨by decide, _, rfl, by rw [hfirst]; exact hnote⟩
  exact ⟨plain7.oracle_prover, rfl, hsound, ⟨0, rfl, plain7.oracle_path hleaf⟩, by decide, by decide⟩

/-- The account 7 withdraws 1, of which the relayer takes all. -/
theorem prepared_withdrawal7 (payout : Payout) (hfee : payout.fee ≤ 1) :
    ∃ (t : Trace) (c : Calldata .withdrawal), (Withdrawal.prepare .supported (.opened holding7) 1 payout
      .supported).run.Yields t (.ok c) ∧ t.AnsweredBy simulated := by
  obtain ⟨c, heval, -⟩ := ((movable7 0 0).withdrawal .supported hfee).1 (by decide)
  obtain ⟨t, hyields, ht⟩ := Program.yields_eval (World.oracle 0 0 openedWorld7)
    (Withdrawal.prepare .supported (.opened holding7) 1 payout .supported).run
  rw [heval] at hyields
  exact ⟨t, c, hyields, fun q r hx => (ht _ hx).trans (plain7.oracle_prover q)⟩

/-! ## Another payout -/

/-- Let a withdrawal be encoded, and let another call with its proof have another payout, whatever else
the calls say. Then the other one is refused for the same version, or the two payouts collide, or the
bytes of the two proofs do. Behind this, a payout is packed without loss, its commitment is the upper
bits of the digest themselves, and what a call says of its commitment is ignored. -/
theorem withdrawal_payout_bound {c c' : Call .withdrawal} (h : l.Encodable version sender c)
    (hproof : c'.proof = c.proof) (hterms : c'.terms ≠ c.terms) :
    (∀ (l' : Ledger) (sender' : Address), l'.Refuses version sender' c' ∨
      Payout.Collide version c.terms c'.terms ∨
      Collide (proofBytes .withdrawal (checkedStatement version c))
        (proofBytes .withdrawal (checkedStatement version c'))) ∧
    (∀ version version' p p', Payout.packed version p = Payout.packed version' p' →
      version = version' ∧ p = p') ∧
    (∀ version p, (Payout.commitment version p).toNat =
      Payout.upperBits (Keccak.digest (p.packed version))) ∧
    ∀ l version sender (c : Call .withdrawal) commitment,
      Ledger.answer (.encode .withdrawal version sender
          { c with statement := { c.statement with commitment } }) l =
        Ledger.answer (.encode .withdrawal version sender c) l := by
  refine ⟨fun l' sender' => ?_, fun _ _ _ _ => Payout.packed_injective, Payout.toNat_commitment,
    Ledger.answer_commitment⟩
  by_cases h' : l'.Encodable version sender' c'
  · right
    rcases h.checked_eq_or_collide h' hproof with hchecked | hcollide
    · -- the statements differ in their commitments at most
      have hcommitment : c.terms.commitment version = c'.terms.commitment version :=
        congrArg WithdrawalStatement.commitment hchecked
      rcases Payout.eq_or_collide hcommitment with hterms' | hcollide
      · exact absurd hterms'.symm hterms
      · exact .inl hcollide
    · exact .inr hcollide
  · exact .inl (Ledger.refuses_of_not_encodable h')

/-- A prepared withdrawal whose fee was raised from 1 to 2. -/
theorem withdrawal_payout_bound_raised7 :
    ∃ c : Call .withdrawal, ({} : Ledger).Encodable .supported relayerAddress c ∧
      c.terms = ⟨relayerAddress, relayerAddress, 1⟩ ∧
      ∀ (l' : Ledger) (sender' : Address),
        let c' := { c with terms := ⟨relayerAddress, relayerAddress, 2⟩ }
        l'.Refuses .supported sender' c' ∨ Payout.Collide .supported c.terms c'.terms ∨
          Collide (proofBytes .withdrawal (checkedStatement .supported c))
            (proofBytes .withdrawal (checkedStatement .supported c')) := by
  obtain ⟨t, c, hyields, ht⟩ := prepared_withdrawal7 ⟨relayerAddress, relayerAddress, 1⟩ (by decide)
  obtain ⟨-, hamount, hterms, hstatement, hproof⟩ := prepared_withdrawal hyields ht
  have hencodable : ({} : Ledger).Encodable .supported relayerAddress c.call := by
    refine Ledger.encodable_iff.2 ⟨rfl, ?_, hstatement ▸ hproof⟩
    rw [hterms, hamount]
    decide
  refine ⟨c.call, hencodable, hterms, fun l' sender' => ?_⟩
  let raised : Call .withdrawal := { c.call with terms := ⟨relayerAddress, relayerAddress, 2⟩ }
  have hproof : raised.proof = c.call.proof := rfl
  have hraised : raised.terms ≠ c.call.terms := by
    rw [hterms]
    show (⟨relayerAddress, relayerAddress, 2⟩ : Payout) ≠ _
    decide
  exact (withdrawal_payout_bound hencodable hproof hraised).1 l' sender'

/-! ## Another amount in a prepared withdrawal -/

/-- Let the amount of a prepared withdrawal be replaced. If the residue is another one, every ledger
refuses the call, sent as it is or through the relayer, unless the bytes of two proofs collide. But if
the residue is the same, the call is encoded like the prepared one as soon as the new amount covers the
fee. Its event then says the new amount, and the owner finds it only if the balance covers that. -/
theorem withdrawal_amount_bound {a : Account} {amount : UInt256} {payout : Payout} {t : Trace}
    {c : Calldata .withdrawal}
    (h : (Withdrawal.prepare version a amount payout expected).run.Yields t (.ok c))
    (ht : t.AnsweredBy simulated) (amount' : UInt256) :
    let c' := withAmount c amount'
    (Scalar.ofUInt256 amount' ≠ .ofUInt256 amount →
      ∀ call, (call = c'.call ∨ call = World.relayedCall c'.relayRequest) →
        (∀ (l : Ledger) (sender : Address), l.Refuses expected sender call) ∨
          Collide (proofBytes .withdrawal c.call.statement)
            (proofBytes .withdrawal (checkedStatement expected call))) ∧
    (Scalar.ofUInt256 amount' = .ofUInt256 amount →
      ∀ (l : Ledger) (sender : Address),
        (l.Encodable expected sender c'.call ↔ expected = l.version ∧ payout.fee ≤ amount') ∧
        (payout.relayer = relayerAddress →
          l.answer (Ledger.relayedQuery c'.relayRequest) =
            l.answer (.encode .withdrawal expected relayerAddress c'.call)) ∧
        ∀ (o : Oracle surroundings) (block : UInt64), (∀ q, o (.prover q) = simulated q) →
          l.version = version → (l.eventOf c'.call).amount = amount' ∧
          (History.select version a block [l.eventOf c'.call]).run.eval o =
            if amount' ≤ a.balance then .ok (l.eventOf c'.call)
            else .error (.history (.eventCount block 0))) := by
  obtain ⟨hversion, hamount, hterms, hstatement, hproof⟩ := prepared_withdrawal h ht
  have hcontinues := (Withdrawal.yields_prepare h ht).1
  have hvalue : c.call.statement.value = .ofUInt256 amount := by
    rw [hstatement, ← hamount]
    rfl
  intro c'
  constructor
  · intro hne call hcall
    have hcall' : call.proof = c.call.proof ∧ call.amount = amount' := by
      rcases hcall with rfl | rfl <;> exact ⟨rfl, rfl⟩
    by_cases hrefused : ∀ (l : Ledger) (sender : Address), l.Refuses expected sender call
    · exact .inl hrefused
    · right
      simp only [not_forall] at hrefused
      obtain ⟨l, sender, hnot⟩ := hrefused
      have hencodable : l.Encodable expected sender call :=
        not_not.1 (mt Ledger.refuses_of_not_encodable hnot)
      obtain ⟨-, -, hproof'⟩ := Ledger.encodable_iff.1 hencodable
      have hproofs : proof .withdrawal c.call.statement =
          proof .withdrawal (checkedStatement expected call) := by
        rw [← hproof', ← hproof, hcall'.1]
      rcases proof_eq_or_collide (m := .withdrawal) hproofs with hstatements | hcollide
      · have hvalues : Scalar.ofUInt256 amount = .ofUInt256 amount' := by
          rw [← hvalue, hstatements, ← hcall'.2]
          rfl
        exact absurd hvalues.symm hne
      · exact hcollide
  · intro hres l sender
    have hchecked : checkedStatement expected c'.call = c.call.statement := by
      rw [hstatement]
      simp only [checkedStatement, c', withAmount, hres, hamount]
    refine ⟨?_, fun hrelayer => ?_, fun o block ho hv => ⟨rfl, ?_⟩⟩
    · have hfee : c'.call.terms.fee = payout.fee := congrArg Payout.fee hterms
      rw [Ledger.encodable_iff, hchecked, hfee]
      exact ⟨fun ⟨hl, hle, _⟩ => ⟨hl, hle⟩, fun ⟨hl, hle⟩ => ⟨hl, hle, hproof⟩⟩
    · have hversion' : c'.relayRequest.version = expected := hversion
      simp only [Ledger.relayedQuery, Ledger.answer, Ledger.encode, hversion',
        World.checkedCall_relayed (p := c') (by rw [← hrelayer, ← hterms]; rfl)]
    · have hres' : Scalar.ofUInt256 amount' = .ofUInt256 c.call.amount := by
        rw [hamount]
        exact hres
      exact eval_select_withAmount ho hcontinues hres' rfl hv rfl rfl block

/-- In a prepared withdrawal of 1 from a balance of 10, the amount is replaced by 2, and by one more than
the modulus. The ledger encodes the latter, and the owner will not find it. -/
theorem withdrawal_amount_bound_wrapped7 :
    ∃ c : Calldata .withdrawal, c.call.amount = 1 ∧
      ((∀ (l : Ledger) (sender : Address), l.Refuses .supported sender (withAmount c 2).call) ∨
        Collide (proofBytes .withdrawal c.call.statement)
          (proofBytes .withdrawal (checkedStatement .supported (withAmount c 2).call))) ∧
      ∀ o : Oracle surroundings, (∀ q, o (.prover q) = simulated q) →
        let wrapped := (withAmount c (.ofNat (Scalar.modulus + 1))).call
        ({} : Ledger).Encodable .supported relayerAddress wrapped ∧
          (History.select .supported (.opened holding7) 2 [Ledger.eventOf {} wrapped]).run.eval o =
            .error (.history (.eventCount 2 0)) := by
  obtain ⟨t, c, hyields, ht⟩ := prepared_withdrawal7 ⟨relayerAddress, relayerAddress, 1⟩ (by decide)
  have hamount := (prepared_withdrawal hyields ht).2.1
  have hother := (withdrawal_amount_bound hyields ht 2).1 (by decide)
  have hwrapped := (withdrawal_amount_bound hyields ht (.ofNat (Scalar.modulus + 1))).2 (by decide) {}
    relayerAddress
  refine ⟨c, hamount, hother _ (.inl rfl), fun o ho => ⟨hwrapped.1.2 ⟨rfl, by decide⟩, ?_⟩⟩
  have hselect := (hwrapped.2.2 o 2 ho rfl).2
  rwa [if_neg (by decide)] at hselect

end ShieldedWallet.Simulation
