import ShieldedWallet.Proofs.Simulation.Binding

/-!
# Withdrawals with and without a sponsor

A withdrawal that was made for the relayer can be submitted by the relayer, or sent by its owner from
whatever address. The relayer is told less than the owner knows, but only what the ledger ignores or
computes itself is left out, and nobody looks at the address that a transaction comes from. So the ledger
is asked the same either way, and what is told of its answer is the same as well, but for the failure that
a refused version is reported as.
-/

namespace ShieldedWallet.Simulation.World

variable {c storage : Nat} {w : World} {p : Calldata .withdrawal} {sender : Address}

/-- How a withdrawal ends when the relayer submits it, and how it ends when it is sent. -/
inductive EndsLike : Except Failure Hash256 → Except Failure Hash256 → Prop
  /-- The ledger has accepted it. -/
  | accepted (hash : Hash256) : EndsLike (.ok hash) (.ok hash)
  /-- It was made for another version. -/
  | outdated (reason : String) :
      EndsLike (.error (.relayerVersion ("\"Version mismatch: " ++ reason ++ "\"")))
        (.error (.contractVersion reason))
  /-- It could not be submitted. -/
  | refused (reason : String) :
      EndsLike (.error (.submission .withdrawal reason)) (.error (.submission .withdrawal reason))

namespace EndsLike

variable {r r' : Except Failure Hash256}

theorem ok_iff (h : EndsLike r r') (hash : Hash256) : r = .ok hash ↔ r' = .ok hash := by
  cases h with
  | accepted => exact Iff.rfl
  | outdated | refused =>
    constructor
    · intro hr
      cases hr
    · intro hr
      cases hr

theorem errors (h : EndsLike r r') {e e' : Failure} (hr : r = .error e) (hr' : r' = .error e') :
    (∃ reason, e = .relayerVersion ("\"Version mismatch: " ++ reason ++ "\"") ∧
      e' = .contractVersion reason) ∨
    ∃ reason, e = .submission .withdrawal reason ∧ e' = .submission .withdrawal reason := by
  cases h with
  | accepted => cases hr
  | outdated reason =>
    cases hr
    cases hr'
    exact .inl ⟨reason, rfl, rfl⟩
  | refused reason =>
    cases hr
    cases hr'
    exact .inr ⟨reason, rfl, rfl⟩

/-- The relayer passes on why the ledger does not encode a call. -/
theorem of_contractFailure (e : ContractFailure) :
    EndsLike (.error (.whileSubmitting .withdrawal (.ofRelayer (relayedFailure e))))
      (.error (.whileSubmitting .withdrawal (.ofContract e))) := by
  cases e with
  | versionRejected reason => exact .outdated reason
  | rejected reason => exact .refused _
  | rpc reason => exact .refused _

/-- The relayer passes on what has become of a transaction. -/
theorem of_executed (r : Except String Hash256) :
    EndsLike ((r.mapError .response).mapError fun f => .whileSubmitting .withdrawal (.ofRelayer f))
      (r.mapError (.submission .withdrawal)) := by
  cases r with
  | ok hash => exact .accepted hash
  | error reason => exact .refused reason

end EndsLike

/-- A submitted transaction is executed, and the movement is named if that fails. -/
theorem Undisturbed.run_submit {m : Movement} (hw : w.Undisturbed) (tx : TransactionRequest) :
    let submitted := (Action.submit m tx).run.run (World.answer c storage) w
    submitted.1 = (w.ledger.execute tx).1.mapError (Failure.submission m) ∧
      submitted.2.ledger = (w.ledger.execute tx).2 := by
  obtain ⟨n, he⟩ := execute_eq w tx
  have hsubmit : World.answer c storage (.submit tx) w =
      ((w.ledger.execute tx).1, { w with ledger := (w.ledger.execute tx).2, sent := n }) :=
    (hw.answer_submit tx).trans he
  show (World.answer c storage (.submit tx) w).1.mapError (Failure.submission m) = _ ∧
    (World.answer c storage (.submit tx) w).2.ledger = _
  rw [hsubmit]
  exact ⟨rfl, rfl⟩

/-- Let a withdrawal have been made for the relayer. Then the relayer gets it accepted exactly if it is
accepted when it is sent from whatever address, and it gets the same hash. The ledger is the same
afterwards in any case, and if the two fail, both have been refused for their version, or both could not
be submitted for the same reason. -/
theorem relay_ends_like_send (hw : w.Undisturbed) (hr : p.call.terms.relayer = relayerAddress)
    (sender : Address) :
    let relayed := p.relay.run.run (World.answer c storage) w
    let sent := (p.send sender).run.run (World.answer c storage) w
    (∀ hash, relayed.1 = .ok hash ↔ sent.1 = .ok hash) ∧
    relayed.2.ledger = sent.2.ledger ∧
    ∀ e e', relayed.1 = .error e → sent.1 = .error e' →
      (∃ reason, e = .relayerVersion ("\"Version mismatch: " ++ reason ++ "\"") ∧
        e' = .contractVersion reason) ∨
      ∃ reason, e = .submission .withdrawal reason ∧ e' = .submission .withdrawal reason := by
  intro relayed sent
  suffices h : EndsLike relayed.1 sent.1 ∧ relayed.2.ledger = sent.2.ledger from
    ⟨h.1.ok_iff, h.2, fun e e' => h.1.errors⟩
  have hrelayed : relayed = _ := hw.run_relay p
  cases hanswer : w.ledger.answer (.encode .withdrawal p.version sender p.call) with
  | mk r l' =>
    cases r with
    | error e =>
      have hsent : sent = _ := hw.run_send_refused hanswer
      rw [hrelayed, hsent, relaying, relay_refused hr hanswer]
      exact ⟨.of_contractFailure e, rfl⟩
    | ok data =>
      have hsent : sent = _ := hw.run_send_encoded hanswer
      have hw' : ({ w with ledger := l' } : World).Undisturbed := ⟨hw.faults, hw.substitutes⟩
      obtain ⟨hhash, hledger⟩ := hw'.run_submit (c := c) ⟨sender, Ledger.address, data, 0⟩
      rw [hrelayed, relaying, relay_encoded hr hanswer]
      exact ⟨hsent ▸ hhash ▸ .of_executed _, hsent ▸ hledger.symm⟩

/-- The account 7 withdraws 1 to the relayer, which takes all of it as its fee, and has it submitted. The
ledger, that knows the root of the withdrawal and no hash, accepts it either way. -/
theorem relay_ends_like_send7 :
    ∃ (t : Trace) (p : Calldata .withdrawal) (w : World) (hash : Hash256),
      (Withdrawal.prepare .supported (.opened holding7) 1 ⟨relayerAddress, relayerAddress, 1⟩
        .supported).run.Yields t (.ok p) ∧
      w.Undisturbed ∧ p.call.terms.relayer = relayerAddress ∧
      (p.relay.run.run (World.answer 0 0) w).1 = .ok hash ∧
      ∀ sender, ((p.send sender).run.run (World.answer 0 0) w).1 = .ok hash := by
  obtain ⟨t, p, hyields, ht⟩ := prepared_withdrawal7 ⟨relayerAddress, relayerAddress, 1⟩ (by decide)
  obtain ⟨hversion, hamount, hterms, hstatement, hproof⟩ := prepared_withdrawal hyields ht
  have hr : p.call.terms.relayer = relayerAddress := by rw [hterms]
  have hchecked : Ledger.checkedCall p.version .withdrawal p.call = .ok p.call := by
    rw [hversion, Ledger.checkedCall_withdrawal_iff, ← hstatement]
    refine ⟨?_, hproof, rfl⟩
    rw [hterms, hamount]
    decide
  let w : World := { World.new .direct 1 with ledger := { roots := [p.call.statement.root] } }
  have hw : w.Plain := ⟨⟨rfl, rfl⟩, rfl, rfl⟩
  have hadmits : w.ledger.Admits p.version p.call :=
    { version_eq := hversion
      checked := hchecked
      known := by
        rintro root ⟨⟩
        exact List.mem_singleton_self _
      room := (by decide : 0 < UInt64.size)
      fresh := rfl }
  obtain ⟨w', hrelay, -⟩ := delivers_relay (c := 0) hr w hw hadmits
  have hrelayed := congrArg Prod.fst hrelay
  exact ⟨t, p, w, _, hyields, hw.toUndisturbed, hr, hrelayed,
    fun sender => ((relay_ends_like_send hw.toUndisturbed hr sender).1 _).1 hrelayed⟩

end ShieldedWallet.Simulation.World
