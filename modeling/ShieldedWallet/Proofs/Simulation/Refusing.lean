import ShieldedWallet.Proofs.Simulation.Accepting

/-!
# Refused calls

The ledger refuses a call that was made for another version than the deployed one, and a call whose hash
has been registered before. What it says then depends on nothing else, and nothing else happens but that
an encoded call is used up.
-/

namespace ShieldedWallet.Simulation

variable {m : Movement} {version deployed : ContractVersion} {call : Call m} {e : Failure}

namespace Ledger

variable {l : Ledger}

/-- What is said of a version that is not deployed. -/
def mismatch (version deployed : ContractVersion) : String :=
  "expected " ++ version.text ++ ", deployed " ++ deployed.text

/-- A call for another version is not encoded. -/
theorem answer_outdated (h : version ≠ l.version) (sender : Address) :
    l.answer (.encode m version sender call) =
      (.error (.versionRejected (mismatch version l.version)), { l with calls := l.calls + 1 }) := by
  have hversion : l.checkVersion version = .error (.versionRejected (mismatch version l.version)) :=
    if_neg h
  simp only [answer, Ledger.encode]
  rw [show ({ l with calls := l.calls + 1 } : Ledger).checkVersion version = _ from hversion]
  rfl

/-- A call whose hash is registered is encoded, and refused when it is executed. -/
theorem Vets.execute_spent (h : l.Vets version call) (hspent : l.nullifierBlock? call.key ≠ none)
    (sender : Address) :
    (l.encoding call).execute
        ⟨sender, address, Bytes.ofNatBE 8 l.encoded.length, m.attached call.amount⟩ =
      (.error "nullifier already spent", (l.encoding call).used l.encoded.length) := by
  have hany : l.blocks.any (·.nullifierHash = call.key) = true := by
    rw [ne_eq, nullifierBlock?_eq_none_iff] at hspent
    simpa using hspent
  have happend : ((l.encoding call).used l.encoded.length).append m call.amount call.note call.key
      (payout call).1 (payout call).2 = .error "nullifier already spent" := if_pos hany
  rw [h.execute sender, happend]

end Ledger

namespace World

variable {c storage : Nat} {w w₁ w₂ w' : World} {P : Ledger → Prop} {x : Action Hash256}

/-- Nothing has changed but what is counted and noted down, the known roots, and one more encoded call
that is used up. -/
structure Spared (w w' : World) : Prop where
  plain : w'.Plain
  storages_eq : w'.storages = w.storages
  version_eq : w'.ledger.version = w.ledger.version
  leaves_eq : w'.ledger.leaves = w.ledger.leaves
  blocks_eq : w'.ledger.blocks = w.ledger.blocks
  encoded_le : w'.ledger.encoded.length ≤ w.ledger.encoded.length + 1

theorem Alike.spared (h : w.Alike w') : w.Spared w' where
  plain := h.plain
  storages_eq := h.storages_eq
  version_eq := h.ledger.version_eq
  leaves_eq := h.ledger.leaves_eq
  blocks_eq := h.ledger.blocks_eq
  encoded_le := by
    rw [h.ledger.encoded_eq]
    exact Nat.le_succ _

theorem Spared.amid (h : w₁.Spared w₂) (h₁ : w.Alike w₁) (h₂ : w₂.Alike w') : w.Spared w' where
  plain := h₂.plain
  storages_eq := by rw [h₂.storages_eq, h.storages_eq, h₁.storages_eq]
  version_eq := by rw [h₂.ledger.version_eq, h.version_eq, h₁.ledger.version_eq]
  leaves_eq := by rw [h₂.ledger.leaves_eq, h.leaves_eq, h₁.ledger.leaves_eq]
  blocks_eq := by rw [h₂.ledger.blocks_eq, h.blocks_eq, h₁.ledger.blocks_eq]
  encoded_le := by
    rw [h₂.ledger.encoded_eq, ← h₁.ledger.encoded_eq]
    exact h.encoded_le

/-- The action fails in every plain world whose ledger is as `P` says, and nothing else happens. -/
def Fails (c storage : Nat) (P : Ledger → Prop) (x : Action Hash256) (e : Failure) : Prop :=
  ∀ w : World, w.Plain → P w.ledger →
    ∃ w', x.run.run (World.answer c storage) w = (.error e, w') ∧ w.Spared w'

/-- The ledger would have the call but for its hash, which is registered. -/
def Spent (version : ContractVersion) (call : Call m) (l : Ledger) : Prop :=
  l.Vets version call ∧ l.nullifierBlock? call.key ≠ none

theorem fails_send_outdated (p : Calldata m) (sender : Address) (h : p.version ≠ deployed) :
    Fails c storage (·.version = deployed) (p.send sender)
      (.contractVersion (Ledger.mismatch p.version deployed)) := by
  rintro w hw rfl
  have hrun : (p.send sender).run.run (World.answer c storage) w =
      (.error (.contractVersion (Ledger.mismatch p.version w.ledger.version)),
        { w with ledger := { w.ledger with calls := w.ledger.calls + 1 } }) :=
    hw.toUndisturbed.run_send_refused (Ledger.answer_outdated h sender)
  exact ⟨_, hrun, hw.withLedger _, rfl, rfl, rfl, rfl, Nat.le_succ _⟩

theorem fails_send_spent (p : Calldata m) (sender : Address) :
    Fails c storage (Spent p.version p.call) (p.send sender)
      (.submission m "nullifier already spent") := by
  rintro w hw ⟨h, hspent⟩
  have hexecute := h.execute_spent hspent sender
  let used := (w.ledger.encoding p.call).used w.ledger.encoded.length
  have hw₁ : ({ w with ledger := w.ledger.encoding p.call } : World).Plain := hw.withLedger _
  have hsubmit : World.answer c storage (.submit (bringing w.ledger p.call sender))
      { w with ledger := w.ledger.encoding p.call } =
        (.error "nullifier already spent", { w with ledger := used }) := by
    rw [hw₁.answer_submit, World.execute, bringing, hexecute]
  refine ⟨{ w with ledger := used }, ?_, hw.withLedger _, rfl, rfl, rfl, rfl, ?_⟩
  · rw [hw.run_send h]
    exact Action.run_ofProgram_error hsubmit
  · simp [used, Ledger.used, Ledger.encoding]

theorem fails_relay_outdated (p : Calldata .withdrawal) (h : p.version ≠ deployed) :
    Fails c storage (·.version = deployed) p.relay
      (.relayerVersion ("\"Version mismatch: " ++ Ledger.mismatch p.version deployed ++ "\"")) := by
  rintro w hw rfl
  have hrelay : relay p.relayRequest w.ledger =
      (.error (.versionRejected
        ("\"Version mismatch: " ++ Ledger.mismatch p.version w.ledger.version ++ "\"")),
        { w.ledger with calls := w.ledger.calls + 1 }) := by
    have hencode : w.ledger.answer (.encode .withdrawal p.version relayerAddress
        (relayedCall p.relayRequest)) = _ := Ledger.answer_outdated h relayerAddress
    simp only [relay, Calldata.relayRequest] at hencode ⊢
    rw [hencode]
    rfl
  have hrun : p.relay.run.run (World.answer c storage) w = _ := hw.toUndisturbed.run_relay p
  rw [relaying, hrelay] at hrun
  refine ⟨_, hrun, ?_, rfl, rfl, rfl, rfl, Nat.le_succ _⟩
  exact ⟨⟨hw.faults, hw.substitutes⟩, hw.link, hw.refusing⟩

theorem fails_relay_spent {p : Calldata .withdrawal} (hr : p.call.terms.relayer = relayerAddress) :
    Fails c storage (Spent p.version p.call) p.relay
      (.submission .withdrawal "nullifier already spent") := by
  rintro w hw ⟨h, hspent⟩
  have hrelay : relay p.relayRequest w.ledger =
      (.error (.response "nullifier already spent"),
        (w.ledger.encoding p.call).used w.ledger.encoded.length) := by
    rw [relay_eq hr h, bringing, h.execute_spent hspent relayerAddress]
    rfl
  have hrun : p.relay.run.run (World.answer c storage) w = _ := hw.toUndisturbed.run_relay p
  rw [relaying, hrelay] at hrun
  refine ⟨_, hrun, ?_, rfl, rfl, rfl, rfl, ?_⟩
  · exact ⟨⟨hw.faults, hw.substitutes⟩, hw.link, hw.refusing⟩
  · simp [Ledger.used, Ledger.encoding]

/-- Telling the owner about it changes nothing, so long as `P` does not depend on what is counted. -/
theorem Fails.deliver (h : Fails c storage P x e) (p : Calldata m)
    (hP : ∀ {l l' : Ledger}, l.Alike l' → P l → P l') :
    Fails c storage P (Wallet.deliver p x) e := by
  intro w hw hl
  have hnotify : ∀ (n : Notice) (w : World), w.Plain →
      w.Alike (World.answer c storage (.notify n) w).2 :=
    fun n w hw => hw.alike_answer c storage trivial
  let w₁ := (World.answer c storage (.notify (.prepared p.summary (.move m))) w).2
  have hw₁ : w.Alike w₁ := hnotify _ w hw
  have hprepared : (Action.notify (.prepared p.summary (.move m))).run.run (World.answer c storage) w =
      (.ok (), w₁) := rfl
  obtain ⟨w₂, hx, hspared⟩ := h w₁ hw₁.plain (hP hw₁.ledger hl)
  have hreported := Action.run_reporting_error .sending (.move m) hx
  refine ⟨_, ?_, hspared.amid hw₁ (hnotify (.ofFailure e .sending (.move m)) w₂ hspared.plain)⟩
  rw [Wallet.deliver, Action.run_bind_ok hprepared]
  exact Action.run_bind_error hreported

end World

end ShieldedWallet.Simulation
