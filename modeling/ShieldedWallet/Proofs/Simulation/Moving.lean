import ShieldedWallet.Proofs.Simulation.Accepting
import ShieldedWallet.Proofs.Simulation.Entire
import ShieldedWallet.Proofs.Simulation.Standing

/-!
# Moving funds

A wallet that is up to date prepares a call, has it accepted by the ledger, and finds it by its next
pass. What the call is plays no part in this, so long as it was prepared from the stored account.
-/

namespace ShieldedWallet.Simulation

open History (Step lastOf)

variable {c storage : Nat} {wallet : Wallet} {w w₁ w₂ : World} {a : Account} {m : Movement}
  {amount b : UInt256} {destination : Option Address} {fee : Option UInt256} {tx : Hash256}

/-- One more call, block and leaf can be numbered by machine words. -/
structure Ledger.HasRoom (l : Ledger) : Prop where
  encoded : l.encoded.length < UInt64.size
  blocks : l.blocks.length + 1 < UInt64.size
  leaves : l.leaves.length < UInt64.size

/-- The stored account of the wallet is `a`. It is up to date and can be moved. -/
structure Ready (storage : Nat) (wallet : Wallet) (w : World) (a : Account) : Prop where
  standing : Standing storage wallet.settings.version wallet.register w a
  version_eq : w.ledger.version = wallet.settings.version
  noteVersion_eq : wallet.settings.version.noteVersion = noteVersion
  fresh : w.ledger.nullifierBlock? (searchHash a.id a.nonce.toNat) = none
  nonce_ne : a.nonce ≠ Note.maxNonce
  room : w.ledger.HasRoom

/-- A movement of the account to the balance `b` has turned the world `w` into `w₁`, as the transaction
`tx`: a new leaf was appended. If the search hash of the next account is not registered by then, the
next pass of the wallet takes one step. It tells the owner about this movement, and keeps the next
account. -/
def Completes (c storage : Nat) (wallet : Wallet) (a : Account) (m : Movement) (amount b : UInt256)
    (destination : Option Address) (fee : Option UInt256) (w : World) (tx : Hash256) (w₁ : World) :
    Prop :=
  ∃ note, w₁.ledger.leaves = w.ledger.leaves ++ [note] ∧
    (w₁.ledger.nullifierBlock? (searchHash a.id (a.nonce.toNat + 1)) = none →
      ∃ w₂, wallet.sync.run.run (World.answer c storage) w₁ = (.ok 1, w₂) ∧
        Trace.reported (wallet.sync.run.trace (World.answer c storage) w₁) =
          [{ movement := m, amount, destination, relayerFee := fee, note, txHash := tx,
             block := .ofNat (w.ledger.blocks.length + 1) }] ∧
        wallet.register.read (w₂.storages storage wallet.register.key) =
          .ok (.opened ⟨a.id, a.nonce + 1, b, note, some (.ofNat w.ledger.leaves.length)⟩))

theorem Completes.alike (h : Completes c storage wallet a m amount b destination fee w₁ tx w₂)
    (hw : w.Alike w₁) : Completes c storage wallet a m amount b destination fee w tx w₂ := by
  unfold Completes at h ⊢
  rwa [hw.ledger.leaves_eq, hw.ledger.blocks_eq] at h

/-- A call that is prepared by asking continues the account that it is prepared from, and its root is
known: the path was handed out while the call was prepared. -/
theorem World.Plain.run_prepared (hw : w.Plain) {version : ContractVersion} {x : Action (Calldata m)}
    (hx : x.run.Confined Query.IsReading)
    (hyields : ∀ {t : Trace} {p : Calldata m}, x.run.Yields t (.ok p) → t.AnsweredBy simulated →
      p.call.Continues simulated version a ∧ ∀ root, p.call.root? = some root → t.Shows root) :
    ∃ w₁, x.run.run (World.answer c storage) w = (x.run.eval (World.oracle c storage w), w₁) ∧
      w.Alike w₁ ∧ ∀ p, x.run.eval (World.oracle c storage w) = .ok p →
        p.call.Continues simulated version a ∧
          ∀ root, p.call.root? = some root → root ∈ w₁.ledger.roots := by
  obtain ⟨w₁, halike, hrun⟩ := hw.run_reading c storage hx
  refine ⟨w₁, hrun, halike, fun p heval => ?_⟩
  have hyield := Program.yields_trace (World.answer c storage) x.run w
  rw [hrun, heval] at hyield
  have hanswered : Trace.AnsweredBy simulated (x.run.trace (World.answer c storage) w) := by
    intro q r hmem
    obtain ⟨w', hw', ha⟩ := Program.trace_answered (fun q w hw => hw.answer q) hw _ hmem
    exact ha.trans (congrArg Prod.fst (hw'.answer_prover q))
  obtain ⟨hcontinues, hshows⟩ := hyields hyield hanswered
  refine ⟨hcontinues, fun root hroot => ?_⟩
  obtain ⟨index, path, hmem, hlast⟩ := hshows root hroot
  obtain ⟨root', hlast', hknown⟩ := hw.root_known hx hmem
  obtain rfl : root = root' := Option.some.inj (hlast.symm.trans hlast')
  rwa [hrun] at hknown

/-- Loading the account changes nothing. -/
theorem World.Plain.run_account (hw : w.Plain)
    (hread : wallet.register.read (w.storages storage wallet.register.key) = .ok a) :
    wallet.account.run.run (World.answer c storage) w = (.ok a, w) := by
  have hload : (Action.load wallet.register.key).run.run (World.answer c storage) w =
      (.ok (w.storages storage wallet.register.key), w) :=
    Action.run_ofProgram_ok (hw.answer_load _)
  rw [Wallet.account, Register.load, Action.run_bind_ok hload]
  show (wallet.register.read (w.storages storage wallet.register.key), w) = _
  rw [hread]

/-- The relayer says its address. -/
theorem World.Plain.run_relayer (c storage : Nat) (hw : w.Plain) :
    ∃ w₁, (Action.relayer .address).run.run (World.answer c storage) w = (.ok relayerAddress, w₁) ∧
      w.Alike w₁ := by
  have haddress : (World.answer c storage (.relayer .address) w).1 = .ok relayerAddress := by
    rw [hw.answer_relayer]
    rfl
  exact ⟨_, Action.run_ofProgram_ok (Prod.ext haddress rfl), hw.alike_answer c storage trivial⟩

namespace Ready

theorem alike (h : Ready storage wallet w a) (hw : w.Alike w₁) : Ready storage wallet w₁ a := by
  have hplain := hw.plain
  have hstorages := hw.storages_eq
  obtain ⟨roots, calls, hl⟩ := hw.ledger
  refine ⟨⟨hplain, ?_, ?_, h.standing.sound, ?_⟩, ?_, h.noteVersion_eq, ?_, h.nonce_ne, ?_⟩
  · rw [hl]
    exact h.standing.indexed
  · rw [hstorages]
    exact h.standing.read_eq
  · rw [hl]
    exact h.standing.placed
  · rw [hl]
    exact h.version_eq
  · rw [hl]
    exact h.fresh
  · rw [hl]
    exact ⟨h.room.encoded, h.room.blocks, h.room.leaves⟩

/-- A call that continues the account registers its search hash. -/
theorem key_eq {call : Call m} (hc : call.Continues simulated wallet.settings.version a)
    (hopen : m = .opening → a.isUnopened = true) : call.key = searchHash a.id a.nonce.toNat := by
  have hsearch : History.IsSearchHash simulated a call.key := by
    have hkey := hc.key
    by_cases hm : m = .opening
    · rw [if_pos hm] at hkey
      cases a with
      | unopened id => exact hkey
      | opened h => cases hopen hm
    · rwa [if_neg hm] at hkey
  exact searchHash_of_isSearchHash hsearch

/-- A call that was prepared by asking is admitted. -/
theorem admits (h : Ready storage wallet w a) {x : Action (Calldata m)} {p : Calldata m}
    {terms : Terms m} (hx : x.run.Confined Query.IsReading)
    (heval : x.run.eval (World.oracle c storage w) = .ok p)
    (hproper : Proper amount terms wallet.settings.version p)
    (hyields : ∀ {t : Trace} {p : Calldata m}, x.run.Yields t (.ok p) → t.AnsweredBy simulated →
      p.call.Continues simulated wallet.settings.version a ∧
        ∀ root, p.call.root? = some root → t.Shows root)
    (hopen : m = .opening → a.isUnopened = true) :
    ∃ w₁, x.run.run (World.answer c storage) w = (.ok p, w₁) ∧ w.Alike w₁ ∧
      p.call.Continues simulated wallet.settings.version a ∧
      w₁.ledger.Admits p.version p.call := by
  obtain ⟨w₁, hrun, halike, hmade⟩ := h.standing.plain.run_prepared hx hyields
  rw [heval] at hrun
  obtain ⟨hcontinues, hknown⟩ := hmade p heval
  refine ⟨w₁, hrun, halike, hcontinues, ⟨?_, ?_, hknown, ?_⟩, ?_⟩
  · rw [hproper.version_eq, halike.ledger.version_eq, h.version_eq]
  · rw [hproper.version_eq]
    exact hproper.checked
  · exact (h.alike halike).room.encoded
  · have hfresh := (h.alike halike).fresh
    rwa [key_eq hcontinues hopen]

/-- The next pass finds the call that the ledger has accepted. -/
theorem completes (h : Ready storage wallet w a) {call : Call m}
    (hc : call.Continues simulated wallet.settings.version a)
    (hopen : m = .opening → a.isUnopened = true) (hb : m.balanceAfter? a.balance call.amount = some b)
    (htook : w.Took call w₁) :
    Completes c storage wallet a m call.amount b (Ledger.payout call).1 (Ledger.payout call).2 w
      (w.ledger.eventOf call).txHash w₁ := by
  refine ⟨call.note, htook.accepts.leaves_eq, fun hlast => ?_⟩
  have hblocks := htook.accepts.blocks_eq
  rw [key_eq hc hopen] at hblocks
  have hread : wallet.register.read (w₁.storages storage wallet.register.key) = .ok a := by
    rw [htook.storages_eq]
    exact h.standing.read_eq
  have hnonce : a.isUnopened = true ∨ a.nonce ≠ 0 := Register.nonce_of_read hread
  have hmatches : (w.ledger.eventOf call).Matches simulated wallet.settings.version a :=
    ⟨hc.appliesTo hopen, hc.nonce_ne, hc.note⟩
  obtain ⟨next, hnext⟩ := next_append hnonce hmatches h.version_eq h.fresh hblocks h.room.blocks
  obtain ⟨w₂, -, hpass⟩ := (hnext.entire hlast).pass (World.serves_answer c storage)
    (World.steady_answer c storage) (World.keeps_answer c storage wallet.register.key) htook.plain hread
  obtain ⟨hrun, htrace⟩ := Action.run_reporting_ok .syncing .sync hpass.run_eq
  refine ⟨w₂, hrun, ?_, ?_⟩
  · rw [Wallet.sync, htrace, hpass.reported_eq]
    rfl
  · obtain ⟨-, -, balance, hbalance, hnext⟩ := hnext.leads
    obtain rfl : b = balance := Option.some.inj (hb.symm.trans hbalance)
    rw [hpass.read_eq, History.lastOf_cons, History.lastOf_nil, hnext]
    rfl

/-- A call that was prepared by asking is delivered, and found by the next pass. -/
theorem generate (h : Ready storage wallet w a) (stage : Stage) (operation : Operation)
    (send : Calldata m → Action Hash256) {x : Action (Calldata m)} {p : Calldata m} {terms : Terms m}
    (hx : x.run.Confined Query.IsReading)
    (heval : x.run.eval (World.oracle c storage w) = .ok p)
    (hproper : Proper amount terms wallet.settings.version p)
    (hyields : ∀ {t : Trace} {p : Calldata m}, x.run.Yields t (.ok p) → t.AnsweredBy simulated →
      p.call.Continues simulated wallet.settings.version a ∧
        ∀ root, p.call.root? = some root → t.Shows root)
    (hopen : m = .opening → a.isUnopened = true) (hb : m.balanceAfter? a.balance amount = some b)
    (hsend : World.Delivers c storage p.version p.call (send p)) :
    ∃ tx w₁, (Action.reporting stage operation x >>= fun p => Wallet.deliver p (send p)).run.run
        (World.answer c storage) w = (.ok tx, w₁) ∧
      Completes c storage wallet a m amount b (Ledger.payout p.call).1 (Ledger.payout p.call).2 w tx
        w₁ := by
  obtain ⟨w₁, hrun, halike, hcontinues, hadmits⟩ := h.admits hx heval hproper hyields hopen
  obtain ⟨w₂, hdeliver, htook⟩ := hsend.deliver w₁ halike.plain hadmits
  rw [← hproper.amount_eq] at hb ⊢
  have hcompletes := (h.alike halike).completes (c := c) hcontinues hopen hb htook
  refine ⟨_, w₂, ?_, hcompletes.alike halike⟩
  rw [Action.run_bind_ok (Action.run_reporting_ok stage operation hrun).1]
  exact hdeliver

end Ready

end ShieldedWallet.Simulation
