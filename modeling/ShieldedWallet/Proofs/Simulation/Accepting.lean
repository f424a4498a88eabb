import ShieldedWallet.Proofs.Simulation.Preparing

/-!
# Accepted calls

A call that the ledger finds nothing wrong with is accepted if its hash is new and its root is known,
whether its wallet sends it or the relayer does. Its note becomes a leaf, and its event gets a block.
-/

namespace ShieldedWallet.Simulation

variable {m : Movement} {version : ContractVersion} {call : Call m}

namespace Ledger

variable {l l' : Ledger}

/-- The event of a call that is executed next. -/
def eventOf (l : Ledger) (call : Call m) : NoteEvent :=
  l.nextEvent m call.amount call.note (payout call).1 (payout call).2

/-- The ledger finds nothing wrong with the call, if it is brought to it next for the version. -/
structure Vets (l : Ledger) (version : ContractVersion) (call : Call m) : Prop where
  version_eq : version = l.version
  checked : checkedCall version m call = .ok call
  known : ∀ root, call.root? = some root → root ∈ l.roots
  room : l.encoded.length < UInt64.size

/-- The ledger accepts the call, if it is brought to it next for the version. -/
structure Admits (l : Ledger) (version : ContractVersion) (call : Call m) : Prop
    extends l.Vets version call where
  fresh : l.nullifierBlock? call.key = none

/-- The ledger has become `l'` by accepting the call. -/
structure Accepts (l : Ledger) (call : Call m) (l' : Ledger) : Prop where
  version_eq : l'.version = l.version
  leaves_eq : l'.leaves = l.leaves ++ [call.note]
  blocks_eq : l'.blocks = l.blocks ++ [⟨call.key, [l.eventOf call]⟩]
  encoded_le : l'.encoded.length ≤ l.encoded.length + 1

theorem Vets.alike (h : l.Vets version call) (hl : l.Alike l') : l'.Vets version call := by
  obtain ⟨roots, calls, rfl⟩ := hl
  exact ⟨h.version_eq, h.checked, fun root hr => List.mem_append_right _ (h.known root hr), h.room⟩

theorem nullifierBlock?_alike (hl : l.Alike l') (key : Scalar) :
    l'.nullifierBlock? key = l.nullifierBlock? key := by
  obtain ⟨roots, calls, rfl⟩ := hl
  rfl

theorem Admits.alike (h : l.Admits version call) (hl : l.Alike l') : l'.Admits version call :=
  ⟨h.toVets.alike hl, (nullifierBlock?_alike hl _).trans h.fresh⟩

theorem eventOf_alike (hl : l.Alike l') : l'.eventOf call = l.eventOf call := by
  obtain ⟨roots, calls, rfl⟩ := hl
  rfl

/-- A call with a known root has its note appended. -/
theorem perform_eq (hknown : ∀ root, call.root? = some root → root ∈ l.roots) :
    l.perform m call =
      l.append m call.amount call.note call.key (payout call).1 (payout call).2 := by
  cases m with
  | opening => rfl
  | deposit =>
    have hmem := hknown _ rfl
    simp only [perform, if_pos hmem]
    rfl
  | withdrawal =>
    have hmem := hknown _ rfl
    simp only [perform, if_pos hmem]
    rfl

/-- The ledger that has been asked to encode the call. -/
def encoding (l : Ledger) (call : Call m) : Ledger :=
  { l with calls := l.calls + 1, encoded := l.encoded ++ [some ⟨m, call⟩] }

/-- A call for the deployed version that passes the check is encoded as it was checked. -/
theorem answer_encode (hversion : version = l.version) (sender : Address) {call' : Call m}
    (hc : checkedCall version m call' = .ok call) :
    l.answer (.encode m version sender call') =
      (.ok (Bytes.ofNatBE 8 l.encoded.length), l.encoding call) := by
  have hdeployed : l.checkVersion version = .ok () := if_pos hversion
  simp only [answer, Ledger.encode]
  rw [show ({ l with calls := l.calls + 1 } : Ledger).checkVersion version = .ok () from hdeployed, hc]
  rfl

/-- Calls that are checked alike are encoded alike, whoever asks. -/
theorem answer_encode_congr {call' : Call m}
    (h : checkedCall version m call' = checkedCall version m call) (sender' sender : Address) :
    l.answer (.encode m version sender' call') = l.answer (.encode m version sender call) := by
  simp only [answer, encode, h]

namespace Vets

/-- The call, or another one that is checked to be the call, is encoded. -/
theorem encode (h : l.Vets version call) (sender : Address) {call' : Call m}
    (hc : checkedCall version m call' = .ok call) :
    l.answer (.encode m version sender call') =
      (.ok (Bytes.ofNatBE 8 l.encoded.length), l.encoding call) :=
  answer_encode h.version_eq sender hc

/-- What has been encoded is executed by trying to append the note. -/
theorem execute (h : l.Vets version call) (sender : Address) :
    (l.encoding call).execute
        ⟨sender, address, Bytes.ofNatBE 8 l.encoded.length, m.attached call.amount⟩ =
      match ((l.encoding call).used l.encoded.length).append m call.amount call.note call.key
          (payout call).1 (payout call).2 with
      | .ok (hash, l') => (.ok hash, l')
      | .error reason => (.error reason, (l.encoding call).used l.encoded.length) := by
  have hnumber := callNumber?_ofNatBE h.room
  have hcall : (l.encoding call).call? l.encoded.length = some ⟨m, call⟩ := by
    simp [call?, encoding]
  have hperform := perform_eq (l := (l.encoding call).used l.encoded.length) h.known
  cases happend : ((l.encoding call).used l.encoded.length).append m call.amount call.note call.key
      (payout call).1 (payout call).2 with
  | error reason =>
    rw [happend] at hperform
    unfold used at hperform ⊢
    simp only [Ledger.execute, ne_eq, not_true_eq_false, if_false, hnumber, hcall, hperform]
  | ok accepted =>
    rw [happend] at hperform
    unfold used at hperform
    simp only [Ledger.execute, ne_eq, not_true_eq_false, if_false, hnumber, hcall, hperform]

end Vets

theorem Admits.execute (h : l.Admits version call) (sender : Address) :
    ∃ l', (l.encoding call).execute
        ⟨sender, address, Bytes.ofNatBE 8 l.encoded.length, m.attached call.amount⟩ =
      (.ok (l.eventOf call).txHash, l') ∧ l.Accepts call l' := by
  obtain ⟨l', happend, haccepts⟩ : ∃ l', ((l.encoding call).used l.encoded.length).append m call.amount
      call.note call.key (payout call).1 (payout call).2 = .ok ((l.eventOf call).txHash, l') ∧
      l.Accepts call l' :=
    ⟨_, append_ok h.fresh, rfl, rfl, rfl, by simp [used, encoding]⟩
  refine ⟨l', ?_, haccepts⟩
  rw [h.toVets.execute sender, happend]

end Ledger

/-! ## Delivering -/

namespace World

variable {c storage : Nat} {w w₁ w₂ w' : World}

/-- The ledger has accepted the call, and the storages are as before. -/
structure Took (call : Call m) (w w' : World) : Prop where
  plain : w'.Plain
  storages_eq : w'.storages = w.storages
  accepts : w.ledger.Accepts call w'.ledger

theorem Took.amid (h : w₁.Took call w₂) (h₁ : w.Alike w₁) (h₂ : w₂.Alike w') : w.Took call w' where
  plain := h₂.plain
  storages_eq := by rw [h₂.storages_eq, h.storages_eq, h₁.storages_eq]
  accepts := by
    refine ⟨?_, ?_, ?_, ?_⟩
    · rw [h₂.ledger.version_eq, h.accepts.version_eq, h₁.ledger.version_eq]
    · rw [h₂.ledger.leaves_eq, h.accepts.leaves_eq, h₁.ledger.leaves_eq]
    · rw [h₂.ledger.blocks_eq, h.accepts.blocks_eq, h₁.ledger.blocks_eq,
        Ledger.eventOf_alike h₁.ledger]
    · rw [h₂.ledger.encoded_eq, ← h₁.ledger.encoded_eq]
      exact h.accepts.encoded_le

/-- The action has the call accepted in every plain world whose ledger admits it. -/
def Delivers (c storage : Nat) (version : ContractVersion) (call : Call m) (x : Action Hash256) : Prop :=
  ∀ w : World, w.Plain → w.ledger.Admits version call →
    ∃ w', x.run.run (World.answer c storage) w = (.ok (w.ledger.eventOf call).txHash, w') ∧
      w.Took call w'

/-- The transaction that brings a call to the ledger once it has encoded it. -/
def bringing (l : Ledger) (call : Call m) (sender : Address) : TransactionRequest :=
  ⟨sender, Ledger.address, Bytes.ofNatBE 8 l.encoded.length, m.attached call.amount⟩

theorem Plain.withLedger (hw : w.Plain) (l : Ledger) : ({ w with ledger := l } : World).Plain :=
  ⟨⟨hw.faults, hw.substitutes⟩, hw.link, hw.refusing⟩

/-- Sending a call that the ledger encodes comes down to submitting what brings it to the ledger. -/
theorem Undisturbed.run_send_encoded (hw : w.Undisturbed) {p : Calldata m} {sender : Address}
    {data : Bytes} {l' : Ledger}
    (h : w.ledger.answer (.encode m p.version sender p.call) = (.ok data, l')) :
    (p.send sender).run.run (World.answer c storage) w =
      (Action.submit m ⟨sender, Ledger.address, data, m.attached p.call.amount⟩).run.run
        (World.answer c storage) { w with ledger := l' } := by
  let w₁ : World := { w with ledger := l' }
  have hw₁ : w₁.Undisturbed := ⟨hw.faults, hw.substitutes⟩
  have hencode : World.answer c storage (.contract (.encode m p.version sender p.call)) w =
      (.ok data, w₁) := by
    rw [hw.answer_contract, askLedger, onLedger, h]
  have hdata : (Action.contractOr (fun f => .whileSubmitting m (.ofContract f))
      (.encode m p.version sender p.call)).run.run (World.answer c storage) w = (.ok data, w₁) :=
    Action.run_ofProgram_ok hencode
  have htarget : Action.contractAddress.run.run (World.answer c storage) w₁ =
      (.ok Ledger.address, w₁) := by
    show (Except.ok (World.answer c storage .contractAddress w₁).1,
      (World.answer c storage .contractAddress w₁).2) = _
    rw [hw₁.answer_eq]
    rfl
  rw [Calldata.send, Action.run_bind_ok hdata, Action.run_bind_ok htarget]

theorem Undisturbed.run_send_refused (hw : w.Undisturbed) {p : Calldata m} {sender : Address}
    {e : ContractFailure} {l' : Ledger}
    (h : w.ledger.answer (.encode m p.version sender p.call) = (.error e, l')) :
    (p.send sender).run.run (World.answer c storage) w =
      (.error (.whileSubmitting m (.ofContract e)), { w with ledger := l' }) := by
  have hencode : World.answer c storage (.contract (.encode m p.version sender p.call)) w =
      (.error e, { w with ledger := l' }) := by
    rw [hw.answer_contract, askLedger, onLedger, h]
  have hdata : (Action.contractOr (fun f => .whileSubmitting m (.ofContract f))
      (.encode m p.version sender p.call)).run.run (World.answer c storage) w =
        (.error (.whileSubmitting m (.ofContract e)), { w with ledger := l' }) :=
    Action.run_ofProgram_error hencode
  exact Action.run_bind_error hdata

/-- Sending a call that the ledger finds nothing wrong with comes down to having it executed. -/
theorem Plain.run_send (hw : w.Plain) {p : Calldata m} (h : w.ledger.Vets p.version p.call)
    (sender : Address) :
    (p.send sender).run.run (World.answer c storage) w =
      (Action.submit m (bringing w.ledger p.call sender)).run.run (World.answer c storage)
        { w with ledger := w.ledger.encoding p.call } :=
  hw.toUndisturbed.run_send_encoded (h.encode sender h.checked)

theorem delivers_send (p : Calldata m) (sender : Address) :
    Delivers c storage p.version p.call (p.send sender) := by
  intro w hw h
  obtain ⟨l', hexecute, haccepts⟩ := h.execute sender
  have hw₁ : ({ w with ledger := w.ledger.encoding p.call } : World).Plain := hw.withLedger _
  let w₂ : World := { w with ledger := l', sent := w.sent + 1 }
  have hsubmit : World.answer c storage (.submit (bringing w.ledger p.call sender))
      { w with ledger := w.ledger.encoding p.call } = (.ok (w.ledger.eventOf p.call).txHash, w₂) := by
    rw [hw₁.answer_submit, World.execute, bringing, hexecute]
  refine ⟨w₂, ?_, ⟨⟨hw.faults, hw.substitutes⟩, hw.link, hw.refusing⟩, rfl, haccepts⟩
  rw [hw.run_send h.toVets]
  exact Action.run_ofProgram_ok hsubmit

/-- What the relayer makes of a request is checked like the call that was prepared for the relayer. -/
theorem checkedCall_relayed {p : Calldata .withdrawal} (hr : p.call.terms.relayer = relayerAddress)
    (version : ContractVersion) :
    Ledger.checkedCall version .withdrawal (relayedCall p.relayRequest) =
      Ledger.checkedCall version .withdrawal p.call := by
  obtain ⟨⟨⟨⟨root, key, note, value⟩, commitment⟩, proof, amount, ⟨destination, relayer, fee⟩⟩, version⟩ := p
  obtain rfl : relayer = relayerAddress := hr
  rfl

/-- The ledger answers the relayer as it would answer anyone who has the call encoded. -/
theorem answer_relayed {l : Ledger} {p : Calldata .withdrawal}
    (hr : p.call.terms.relayer = relayerAddress) (sender : Address) :
    l.answer (.encode .withdrawal p.relayRequest.version relayerAddress (relayedCall p.relayRequest)) =
      l.answer (.encode .withdrawal p.version sender p.call) :=
  Ledger.answer_encode_congr (checkedCall_relayed hr p.version) relayerAddress sender

theorem relay_refused {l l' : Ledger} {p : Calldata .withdrawal} {sender : Address}
    {e : ContractFailure} (hr : p.call.terms.relayer = relayerAddress)
    (h : l.answer (.encode .withdrawal p.version sender p.call) = (.error e, l')) :
    relay p.relayRequest l = (.error (relayedFailure e), l') := by
  unfold relay
  rw [(answer_relayed hr sender).trans h]

theorem relay_encoded {l l' : Ledger} {p : Calldata .withdrawal} {sender : Address} {data : Bytes}
    (hr : p.call.terms.relayer = relayerAddress)
    (h : l.answer (.encode .withdrawal p.version sender p.call) = (.ok data, l')) :
    relay p.relayRequest l =
      ((l'.execute ⟨relayerAddress, Ledger.address, data, 0⟩).1.mapError .response,
        (l'.execute ⟨relayerAddress, Ledger.address, data, 0⟩).2) := by
  unfold relay
  rw [(answer_relayed hr sender).trans h]

/-- Submitting a call that the ledger finds nothing wrong with comes down to having it executed. -/
theorem relay_eq {l : Ledger} {p : Calldata .withdrawal} (hr : p.call.terms.relayer = relayerAddress)
    (h : l.Vets p.version p.call) : relay p.relayRequest l =
      (((l.encoding p.call).execute (bringing l p.call relayerAddress)).1.mapError .response,
        ((l.encoding p.call).execute (bringing l p.call relayerAddress)).2) :=
  relay_encoded hr (h.encode relayerAddress h.checked)

/-- The world once the relayer has been asked to submit a withdrawal. -/
def relaying (w : World) (r : RelayRequest) : World :=
  { w with
    relayer := { w.relayer with calls := w.relayer.calls + 1 }
    ledger := (relay r w.ledger).2 }

/-- Asking the relayer to submit a withdrawal comes down to what it does on the ledger. -/
theorem Undisturbed.run_relay (hw : w.Undisturbed) (p : Calldata .withdrawal) :
    p.relay.run.run (World.answer c storage) w =
      ((relay p.relayRequest w.ledger).1.mapError fun f => .whileSubmitting .withdrawal (.ofRelayer f),
        w.relaying p.relayRequest) := by
  have hsubmit : World.answer c storage (.relayer (.submit p.relayRequest)) w =
      ((relay p.relayRequest w.ledger).1, w.relaying p.relayRequest) := hw.answer_relayer _
  show ((World.answer c storage (.relayer (.submit p.relayRequest)) w).1.mapError _,
    (World.answer c storage (.relayer (.submit p.relayRequest)) w).2) = _
  rw [hsubmit]

theorem delivers_relay {p : Calldata .withdrawal} (hr : p.call.terms.relayer = relayerAddress) :
    Delivers c storage p.version p.call p.relay := by
  intro w hw h
  obtain ⟨l', hexecute, haccepts⟩ := h.execute relayerAddress
  have hrelay : relay p.relayRequest w.ledger = (.ok (w.ledger.eventOf p.call).txHash, l') := by
    rw [relay_eq hr h.toVets, bringing, hexecute]
    rfl
  have hplain : (w.relaying p.relayRequest).Plain := ⟨⟨hw.faults, hw.substitutes⟩, hw.link, hw.refusing⟩
  refine ⟨w.relaying p.relayRequest, ?_, hplain, rfl, ?_⟩
  · rw [hw.toUndisturbed.run_relay, hrelay]
    rfl
  · rw [relaying, hrelay]
    exact haccepts

/-- Telling the owner about a call before and after changes nothing. -/
theorem Delivers.deliver {p : Calldata m} {x : Action Hash256}
    (h : Delivers c storage p.version p.call x) :
    Delivers c storage p.version p.call (Wallet.deliver p x) := by
  intro w hw hadmits
  have hnotify : ∀ (n : Notice) (w : World), w.Plain →
      ∃ w', (Action.notify n).run.run (World.answer c storage) w = (.ok (), w') ∧ w.Alike w' :=
    fun n w hw => ⟨(World.answer c storage (.notify n) w).2, rfl, hw.alike_answer c storage trivial⟩
  obtain ⟨w₁, hprepared, hw₁⟩ := hnotify (.prepared p.summary (.move m)) w hw
  obtain ⟨w₂, hx, htook⟩ := h w₁ hw₁.plain (hadmits.alike hw₁.ledger)
  rw [Ledger.eventOf_alike hw₁.ledger] at hx
  have hreported := (Action.run_reporting_ok .sending (.move m) hx).1
  obtain ⟨w₃, hsent, hw₃⟩ := hnotify (.sent (w.ledger.eventOf p.call).txHash (.move m)) w₂ htook.plain
  refine ⟨w₃, ?_, htook.amid hw₁ hw₃⟩
  rw [Wallet.deliver, Action.run_bind_ok hprepared, Action.run_bind_ok hreported,
    Action.run_bind_ok hsent]
  rfl

end World

end ShieldedWallet.Simulation
