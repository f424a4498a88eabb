import ShieldedWallet.Proofs.Simulation.Moving
import ShieldedWallet.Proofs.Simulation.Replay

/-!
# What an up-to-date wallet can do

A wallet whose kept account is up to date can always shield an amount that its balance has room for. It
can withdraw an amount that its balance covers exactly if the residue of the balance covers that of the
amount as well, since the prover subtracts residues.
-/

namespace ShieldedWallet.Simulation

variable {c storage : Nat} {wallet : Wallet} {w : World} {a : Account} {holding : Holding}
  {m : Movement} {amount b fee : UInt256} {destination sender : Address}

theorem Kept.ready (hkept : Kept c storage wallet.settings.version wallet.register w)
    (hread : wallet.register.read (w.storages storage wallet.register.key) = .ok a)
    (hversion : w.ledger.version = wallet.settings.version)
    (htop : wallet.settings.version.bytes[0]? = some 0)
    (hfresh : w.ledger.nullifierBlock? (searchHash a.id a.nonce.toNat) = none)
    (hnonce : a.nonce ≠ Note.maxNonce) (hroom : w.ledger.HasRoom) : Ready storage wallet w a := by
  obtain ⟨a', hstanding⟩ := hkept.standing (Nat.le_of_lt hroom.leaves)
  obtain rfl : a' = a := Except.ok.inj (hstanding.read_eq.symm.trans hread)
  obtain ⟨hlt, hbyte⟩ := Vector.getElem?_eq_some_iff.1 htop
  refine ⟨hstanding, hversion, ?_, hfresh, hnonce, hroom⟩
  rw [ContractVersion.noteVersion, hbyte]
  rfl

namespace Ready

theorem run_account (h : Ready storage wallet w a) :
    wallet.account.run.run (World.answer c storage) w = (.ok a, w) :=
  h.standing.plain.run_account h.standing.read_eq

theorem movable (h : Ready storage wallet w (.opened holding))
    (hb : m.balanceAfter? holding.balance amount = some b) :
    Movable (World.oracle c storage w) wallet.settings.version m holding amount b := by
  refine ⟨h.standing.plain.oracle_prover, h.noteVersion_eq, h.standing.sound, ?_, h.nonce_ne, hb⟩
  rcases h.standing.placed with hopen | ⟨index, note, hindex, hnote, hleaf⟩
  · cases hopen
  · obtain rfl : holding.note = note := Option.some.inj hnote
    exact ⟨index, hindex, h.standing.plain.oracle_path hleaf⟩

end Ready

/-- A withdrawal comes down to the preparation of its call. If the residues allow it, the call is
accepted, and otherwise nothing has happened but that the prover has refused to prove it. -/
theorem Ready.withdrawal (h : Ready storage wallet w (.opened holding)) (stage : Stage)
    (operation : Operation) (send : Calldata .withdrawal → Action Hash256)
    (hb : holding.balance.sub? amount = some b) {x : Action (Calldata .withdrawal)} {payout : Payout}
    {w₁ : World} (hw₁ : w.Alike w₁)
    (hx : x.run.run (World.answer c storage) w =
      (Withdrawal.prepare wallet.settings.version (.opened holding) amount payout
        wallet.settings.version).run.run (World.answer c storage) w₁)
    (hfee : payout.fee ≤ amount)
    (hsend : ∀ p, p.call.terms = payout → World.Delivers c storage p.version p.call (send p)) :
    (amount.toNat % Scalar.modulus ≤ holding.balance.toNat % Scalar.modulus →
      ∃ tx w₂, (Action.reporting stage operation x >>= fun p => Wallet.deliver p (send p)).run.run
          (World.answer c storage) w = (.ok tx, w₂) ∧
        Completes c storage wallet (.opened holding) .withdrawal amount b (some payout.destination)
          (some payout.fee) w tx w₂) ∧
    (holding.balance.toNat % Scalar.modulus < amount.toNat % Scalar.modulus →
      ∃ w₂, (Action.reporting stage operation x >>= fun p => Wallet.deliver p (send p)).run.run
          (World.answer c storage) w = (.error unprovable, w₂) ∧ w.Alike w₂) := by
  have hready := h.alike hw₁
  let version := wallet.settings.version
  have hmovable : Movable (World.oracle c storage w₁) version .withdrawal holding amount b :=
    hready.movable hb
  obtain ⟨hproves, hrefuses⟩ := hmovable.withdrawal version hfee
  have hreading : (Withdrawal.prepare version (.opened holding) amount payout version).run.Confined
      Query.IsReading := Withdrawal.confined_prepare (fun _ => trivial) fun _ => trivial
  rw [Action.run_bind_congr _ (Action.run_reporting_congr hx)]
  constructor
  · intro hle
    obtain ⟨p, heval, hproper⟩ := hproves hle
    obtain ⟨tx, w₂, hrun, hcompletes⟩ := hready.generate stage operation send hreading heval hproper
      Withdrawal.yields_prepare (fun hm => by cases hm) hb (hsend p hproper.terms_eq)
    have hpayout : Ledger.payout p.call = (some payout.destination, some payout.fee) := by
      rw [Ledger.payout, hproper.terms_eq]
    rw [hpayout] at hcompletes
    exact ⟨tx, w₂, hrun, hcompletes.alike hw₁⟩
  · intro hlt
    have hreporting : (Action.reporting stage operation (Withdrawal.prepare version (.opened holding)
        amount payout version)).run.Confined Query.IsReading :=
      Action.confined_reporting (fun _ => trivial) hreading
    obtain ⟨w₂, halike, hrun⟩ := hw₁.plain.run_reading c storage hreporting
    rw [Action.eval_reporting, hrefuses hlt] at hrun
    exact ⟨w₂, Action.run_bind_error hrun, hw₁.trans halike⟩

/-- A wallet that is up to date can shield every amount that its balance has room for, be it below the
field order or not. -/
theorem shield_completes (hkept : Kept c storage wallet.settings.version wallet.register w)
    (hread : wallet.register.read (w.storages storage wallet.register.key) = .ok a)
    (hversion : w.ledger.version = wallet.settings.version)
    (htop : wallet.settings.version.bytes[0]? = some 0)
    (hfresh : w.ledger.nullifierBlock? (searchHash a.id a.nonce.toNat) = none)
    (hnonce : a.nonce ≠ Note.maxNonce) (hroom : w.ledger.HasRoom)
    (hb : a.balance.add? amount = some b) (sender : Address) :
    ∃ tx w₁, (wallet.shield amount sender).run.run (World.answer c storage) w = (.ok tx, w₁) ∧
      Completes c storage wallet a (if a.isUnopened then .opening else .deposit) amount b none none
        w tx w₁ := by
  have hready := hkept.ready hread hversion htop hfresh hnonce hroom
  have hplain := hready.standing.plain
  have hv := hready.noteVersion_eq
  let version := wallet.settings.version
  have haccount := (Action.run_reporting_ok .generation (.move .opening) (hready.run_account (c := c))).1
  rw [Wallet.shield, Action.run_bind_ok haccount]
  cases a with
  | unopened id =>
    obtain rfl : amount = b := by
      have hsum := UInt256.add?_eq_some_iff.1 hb
      exact UInt256.ext (by simpa [Account.balance] using hsum)
    have hreading : (Opening.prepare version (.unopened id) amount version).run.Confined
        Query.IsReading := Opening.confined_prepare fun _ => trivial
    have ho : ∀ q, World.oracle c storage w (.prover q) = simulated q := hplain.oracle_prover
    have hprepares := prepares_opening version version amount ho hnonce
    rw [openable, if_pos (walletNote_eq hv).symm] at hprepares
    obtain ⟨p, heval, hproper⟩ := hprepares.made
    exact hready.generate .generation (.move .opening) (fun p => p.send sender) hreading heval hproper
      Opening.yields_prepare (fun _ => rfl) rfl (World.delivers_send p sender)
  | opened holding =>
    have hopened : holding.nonce ≠ 0 := by
      have hnonce := Register.nonce_of_read hread
      simpa [Account.isUnopened, Account.nonce] using hnonce
    have hmovable : Movable (World.oracle c storage w) version .deposit holding amount b :=
      hready.movable hb
    have hreading : (Deposit.prepare version (.opened holding) amount version).run.Confined
        Query.IsReading := Deposit.confined_prepare (fun _ => trivial) fun _ => trivial
    obtain ⟨p, heval, hproper⟩ := hmovable.deposit version
    rw [if_neg (show ¬ (Account.opened holding).nonce = 0 from hopened)]
    exact hready.generate .generation (.move .deposit) (fun p => p.send sender) hreading heval hproper
      Deposit.yields_prepare (fun hm => by cases hm) hb (World.delivers_send p sender)

/-- In a new world the wallet can shield an amount that is the field order itself. -/
theorem shield_completes_new :
    ∃ tx w₁, (wallet7.shield (.ofNat Scalar.modulus) relayerAddress).run.run (World.answer 0 0)
        (World.new .direct 1) = (.ok tx, w₁) ∧
      Completes 0 0 wallet7 (.unopened 7) .opening (.ofNat Scalar.modulus) (.ofNat Scalar.modulus)
        none none (World.new .direct 1) tx w₁ :=
  shield_completes (Kept.start ⟨⟨rfl, rfl⟩, rfl, rfl⟩ rfl Register.read_none) Register.read_none rfl rfl
    rfl (by decide) ⟨by decide, by decide, by decide⟩ (by decide) relayerAddress

/-- A wallet that is up to date can withdraw an amount that its balance covers, through the relayer for a
fee that the amount covers or without it, if the residue of the balance covers that of the amount.
Otherwise neither way leads anywhere, as the prover finds no new balance. -/
theorem withdrawals_complete (hkept : Kept c storage wallet.settings.version wallet.register w)
    (hread : wallet.register.read (w.storages storage wallet.register.key) = .ok (.opened holding))
    (hversion : w.ledger.version = wallet.settings.version)
    (htop : wallet.settings.version.bytes[0]? = some 0)
    (hfresh : w.ledger.nullifierBlock? (searchHash holding.id holding.nonce.toNat) = none)
    (hnonce : holding.nonce ≠ Note.maxNonce) (hroom : w.ledger.HasRoom) (hfee : fee ≤ amount)
    (hb : holding.balance.sub? amount = some b) (destination sender : Address) :
    (amount.toNat % Scalar.modulus ≤ holding.balance.toNat % Scalar.modulus →
      (∃ tx w₁, (wallet.withdraw amount fee destination).run.run (World.answer c storage) w =
          (.ok tx, w₁) ∧
        Completes c storage wallet (.opened holding) .withdrawal amount b (some destination) (some fee)
          w tx w₁) ∧
      ∃ tx w₁, (wallet.withdrawAlone amount destination sender).run.run (World.answer c storage) w =
          (.ok tx, w₁) ∧
        Completes c storage wallet (.opened holding) .withdrawal amount b (some destination) (some 0)
          w tx w₁) ∧
    (holding.balance.toNat % Scalar.modulus < amount.toNat % Scalar.modulus →
      (∃ w₁, (wallet.withdraw amount fee destination).run.run (World.answer c storage) w =
          (.error unprovable, w₁) ∧ w.Alike w₁) ∧
      ∃ w₁, (wallet.withdrawAlone amount destination sender).run.run (World.answer c storage) w =
          (.error unprovable, w₁) ∧ w.Alike w₁) := by
  have hready : Ready storage wallet w (.opened holding) :=
    hkept.ready hread hversion htop hfresh hnonce hroom
  have hcheck : Withdrawal.check (.opened holding) amount fee = .ok () :=
    check_eq_ok hfee hb
  have hplain := hready.standing.plain
  let version := wallet.settings.version
  -- before the call is prepared, the relayer is asked for its address
  obtain ⟨w₁, hrelayer, hw₁⟩ := hplain.run_relayer c storage
  have hchecked : (liftM (Withdrawal.check (.opened holding) amount fee) : Action Unit).run.run
      (World.answer c storage) w = (.ok (), w) := by
    rw [hcheck]
    rfl
  have hrelayed : (do
      let a ← wallet.account
      liftM (Withdrawal.check a amount fee)
      let relayer ← Action.relayer .address
      Withdrawal.prepare version a amount ⟨destination, relayer, fee⟩ version :
        Action (Calldata .withdrawal)).run.run (World.answer c storage) w =
      (Withdrawal.prepare version (.opened holding) amount ⟨destination, relayerAddress, fee⟩
        version).run.run (World.answer c storage) w₁ := by
    rw [Action.run_bind_ok hready.run_account, Action.run_bind_ok hchecked,
      Action.run_bind_ok hrelayer]
  have halone : (do
      let a ← wallet.account
      Withdrawal.prepare version a amount ⟨destination, sender, 0⟩ version :
        Action (Calldata .withdrawal)).run.run (World.answer c storage) w =
      (Withdrawal.prepare version (.opened holding) amount ⟨destination, sender, 0⟩ version).run.run
        (World.answer c storage) w :=
    Action.run_bind_ok hready.run_account
  obtain ⟨hrelayed, hrefused⟩ := hready.withdrawal .generation (.move .withdrawal) (fun p => p.relay) hb
    hw₁ hrelayed hfee fun p hp => World.delivers_relay (by rw [hp])
  obtain ⟨halone, hrefusedAlone⟩ := hready.withdrawal .generation (.move .withdrawal)
    (fun p => p.send sender) hb hplain.alike halone (Nat.zero_le _)
    fun p _ => World.delivers_send p sender
  exact ⟨fun hle => ⟨hrelayed hle, halone hle⟩, fun hlt => ⟨hrefused hlt, hrefusedAlone hlt⟩⟩

/-- The account 7 may have been kept with any balance. -/
theorem kept_opened7 (balance : UInt256) :
    ∃ w holding, Kept 0 0 .supported wallet7.register w ∧
      wallet7.register.read (w.storages 0 "accountState") = .ok (.opened holding) ∧
      holding.balance = balance ∧ w.ledger.version = .supported ∧
      w.ledger.nullifierBlock? (searchHash holding.id holding.nonce.toNat) = none ∧
      holding.nonce ≠ Note.maxNonce ∧ w.ledger.HasRoom := by
  let o : Ledger.Operation := .register 7 balance
  let w : World := { World.new .direct 1 with ledger := o.apply {} }
  have hnew : (World.new .direct 1).Plain := ⟨⟨rfl, rfl⟩, rfl, rfl⟩
  have hw : w.Plain := ⟨⟨rfl, rfl⟩, rfl, rfl⟩
  have hmoves : World.Moves 0 wallet7.register.key (World.new .direct 1) w :=
    ⟨hw, rfl, Ledger.Evolves.refl.apply o⟩
  have hkept : Kept 0 0 .supported wallet7.register w :=
    (Kept.start hnew rfl Register.read_none).move hmoves
  have hversion : ({} : Ledger).version = .supported := rfl
  obtain ⟨b, hentire⟩ := entire_register {} 7 balance hversion rfl rfl rfl searchHash_seven (by decide)
  obtain ⟨w', hw', hpass⟩ := hentire.pass (w := w) (r := wallet7.register) (World.serves_answer 0 0)
    (World.steady_answer 0 0) (World.keeps_answer 0 0 "accountState") hw Register.read_none
  have hamid := Program.amid_run (World.answer 0 0) (World.Moves 0 wallet7.register.key)
    (History.pass .supported wallet7.register).run w
  have hconfined : (History.pass .supported wallet7.register).run.Confined
      (Query.IsOfPass wallet7.register.key) := History.confined_pass
  have halike := hw.ledger_alike 0 0 hconfined
  rw [hpass.run_eq] at hamid halike
  have hblocks : w'.ledger.blocks =
      [⟨searchHash 7 0, [Ledger.registration {} 7 balance]⟩] := halike.blocks_eq
  have hnext : Next simulated .supported (o.apply {}) (.unopened 7) (Ledger.registration {} 7 balance)
    b := hentire.follows.1
  obtain ⟨-, -, b', hb', hopened⟩ := hnext.leads
  obtain rfl : balance = b' := Option.some.inj hb'
  have hread := hpass.read_eq
  rw [History.lastOf_cons, History.lastOf_nil, hopened] at hread
  refine ⟨w', _, hkept.pass hamid, hread, rfl, halike.version_eq, ?_, ?_, ?_, ?_, ?_⟩
  · rw [Ledger.nullifierBlock?_eq_none_iff, hblocks]
    intro block hblock
    obtain rfl := List.mem_singleton.1 hblock
    exact searchHash_seven
  · show (0 + 1 : UInt64) ≠ Note.maxNonce
    decide
  · rw [halike.encoded_eq]
    show 0 < UInt64.size
    decide
  · rw [hblocks]
    show 1 + 1 < UInt64.size
    decide
  · rw [halike.leaves_eq]
    show 1 < UInt64.size
    decide

/-- With the field order as its balance the account can withdraw all of it, and it cannot withdraw 1. -/
theorem withdrawals_complete_modulus :
    ∃ w holding, Kept 0 0 .supported wallet7.register w ∧
      wallet7.register.read (w.storages 0 "accountState") = .ok (.opened holding) ∧
      holding.balance = .ofNat Scalar.modulus ∧
      (∃ tx w₁, (wallet7.withdraw (.ofNat Scalar.modulus) 1 relayerAddress).run.run
          (World.answer 0 0) w = (.ok tx, w₁) ∧
        Completes 0 0 wallet7 (.opened holding) .withdrawal (.ofNat Scalar.modulus) 0
          (some relayerAddress) (some 1) w tx w₁) ∧
      ∃ w₁, (wallet7.withdraw 1 1 relayerAddress).run.run (World.answer 0 0) w =
        (.error unprovable, w₁) ∧ w.Alike w₁ := by
  obtain ⟨w, holding, hkept, hread, hbalance, hversion, hfresh, hnonce, hroom⟩ :=
    kept_opened7 (.ofNat Scalar.modulus)
  have hall : holding.balance.sub? (.ofNat Scalar.modulus) = some 0 := by
    rw [hbalance]
    decide
  have hone : holding.balance.sub? 1 = some (.ofNat (Scalar.modulus - 1)) := by
    rw [hbalance]
    decide
  refine ⟨w, holding, hkept, hread, hbalance, ?_, ?_⟩
  · have hcovered : (UInt256.ofNat Scalar.modulus).toNat % Scalar.modulus ≤
        holding.balance.toNat % Scalar.modulus :=
      Nat.le_of_eq (congrArg (fun v : UInt256 => v.toNat % Scalar.modulus) hbalance.symm)
    exact ((withdrawals_complete hkept hread hversion rfl hfresh hnonce hroom (by decide) hall
      relayerAddress relayerAddress).1 hcovered).1
  · have hexceeded : holding.balance.toNat % Scalar.modulus < (1 : UInt256).toNat % Scalar.modulus := by
      rw [hbalance]
      decide
    exact ((withdrawals_complete hkept hread hversion rfl hfresh hnonce hroom (by decide) hone
      relayerAddress relayerAddress).2 hexceeded).1

end ShieldedWallet.Simulation
