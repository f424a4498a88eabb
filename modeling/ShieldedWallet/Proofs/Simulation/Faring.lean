import ShieldedWallet.Proofs.Simulation.Operating

/-!
# How an account fares

Transaction hashes, blocks and positions say when something has happened on the ledger among all the
things that happened there. Without them, what an operation ends with, what the owner is told and what the
steps of the account are afterwards is determined by the steps before and by how many of them are kept.
To everybody else, an operation only adds blocks that register search hashes of its account.
-/

namespace ShieldedWallet

/-! ## Bare data -/

/-- The event but for when it happened. -/
def NoteEvent.bare (e : NoteEvent) : NoteEvent :=
  { e with noteIndex := 0, txHash := Vector.replicate 32 0, block := 0 }

/-- The transaction but for when it happened. -/
def Transaction.bare (x : Transaction) : Transaction :=
  { x with txHash := Vector.replicate 32 0, block := 0 }

/-- The account but for the position of its note. -/
def Account.bare : Account → Account
  | .unopened id => .unopened id
  | .opened h => .opened { h with noteIndex := none }

/-- The step but for when it happened. -/
def History.Step.bare (x : History.Step) : History.Step := ⟨x.event.bare, x.account.bare⟩

namespace Account

@[simp] theorem id_bare (a : Account) : a.bare.id = a.id := by cases a <;> rfl

@[simp] theorem nonce_bare (a : Account) : a.bare.nonce = a.nonce := by cases a <;> rfl

@[simp] theorem balance_bare (a : Account) : a.bare.balance = a.balance := by cases a <;> rfl

end Account

namespace Simulation

open History (Step Follows lastOf)

/-- What an operation ended with, but for the hash of its transaction. -/
def Reply.bare : Reply → Reply
  | .sent _ => .sent (Vector.replicate 32 0)
  | .found n => .found n

/-- The report but for when something happened. -/
def Report.bare (r : Report) : Report := ⟨r.result.map Reply.bare, r.told.map Transaction.bare⟩

variable {o : Owner} {p : Party} {N n k j i : Nat} {xs ys xs' ys' : List Step} {w w' : World}
  {version deployed : ContractVersion} {a b : Account} {command : Command} {r r' : Report}

theorem bare_lastOf (a : Account) (xs : List Step) :
    (lastOf a xs).bare = lastOf a.bare (xs.map Step.bare) := by
  induction xs generalizing a with
  | nil => rfl
  | cons x xs ih => rw [History.lastOf_cons, List.map_cons, History.lastOf_cons, ih]; rfl

theorem bare_stateAt (h : xs.map Step.bare = ys.map Step.bare) (id : Scalar) (k : Nat) :
    (stateAt id xs k).bare = (stateAt id ys k).bare := by
  rw [stateAt, stateAt, bare_lastOf, bare_lastOf, List.map_take, List.map_take, h]

theorem length_eq_of_bare (h : xs.map Step.bare = ys.map Step.bare) : xs.length = ys.length := by
  simpa using congrArg List.length h

/-- What is attempted does not depend on where the note is. -/
theorem Command.attempt?_bare (version : ContractVersion) (a : Account) (command : Command) :
    command.attempt? version a.bare = command.attempt? version a := by
  cases command with
  | sync => rfl
  | _ => cases a <;> rfl

/-! ## One operation -/

/-- The event of a movement that was accepted, but for when it happened. -/
def Attempt.event (t : Attempt) (deployed : ContractVersion) (note : Scalar) : NoteEvent where
  movement := t.movement
  version := deployed
  amount := t.amount
  note := note
  noteIndex := 0
  destination := t.destination
  relayerFee := t.fee
  txHash := Vector.replicate 32 0
  block := 0

/-- Steps that come of one attempt from accounts alike are alike. -/
theorem Step.bare_eq {t : Attempt} {x y : Step} (hab : a.bare = b.bare)
    (hx : x.event.bare = t.event deployed x.event.note)
    (hy : y.event.bare = t.event deployed y.event.note)
    (hxm : x.event.Matches simulated version a) (hym : y.event.Matches simulated version b)
    (hxl : x.event.Leads a x.account) (hyl : y.event.Leads b y.account) : x.bare = y.bare := by
  have hid : a.id = b.id := by simpa using congrArg Account.id hab
  have hnonce : a.nonce = b.nonce := by simpa using congrArg Account.nonce hab
  have hbalance : a.balance = b.balance := by simpa using congrArg Account.balance hab
  have hmovement : x.event.movement = y.event.movement :=
    (congrArg NoteEvent.movement hx).trans (congrArg NoteEvent.movement hy).symm
  have hamount : x.event.amount = y.event.amount :=
    (congrArg NoteEvent.amount hx).trans (congrArg NoteEvent.amount hy).symm
  have hafter : x.event.movement.balanceAfter? a.balance x.event.amount =
      y.event.movement.balanceAfter? b.balance y.event.amount := by rw [hmovement, hamount, hbalance]
  have hnote : x.event.note = y.event.note := by
    obtain ⟨-, -, left, hleft, his⟩ := hxm
    obtain ⟨-, -, left', hleft', his'⟩ := hym
    rw [hafter, hleft'] at hleft
    obtain rfl := Option.some.inj hleft
    rw [hid, hnonce] at his
    exact his.unique his'
  have haccount : x.account.bare = y.account.bare := by
    obtain ⟨-, -, left, hleft, hx⟩ := hxl
    obtain ⟨-, -, left', hleft', hy⟩ := hyl
    rw [hafter, hleft'] at hleft
    obtain rfl := Option.some.inj hleft
    rw [hx, hy, hid, hnonce, hnote]
    rfl
  rw [Step.bare, Step.bare, hx, hy, hnote, haccount]

/-- What an operation reports, and what the steps of the account are afterwards and how many of them are
kept, if they were `xs` before and `k` of them were kept. -/
inductive Fares (o : Owner) (deployed : ContractVersion) (xs : List Step) (k : Nat) (command : Command) :
    Report → List Step → Nat → Prop where
  /-- Funds are not moved. -/
  | refused {t : Attempt} {e : Failure}
      (ht : command.attempt? o.version (stateAt o.id xs k) = some t)
      (he : t.settle o.version deployed k xs.length = .error e) :
      Fares o deployed xs k command ⟨.error e, []⟩ xs k
  /-- Funds are moved, and the account makes a step. -/
  | moved {t : Attempt} {tx : Hash256} {x : Step}
      (ht : command.attempt? o.version (stateAt o.id xs k) = some t)
      (hok : t.settle o.version deployed k xs.length = .ok ())
      (he : x.event.bare = t.event deployed x.event.note)
      (hm : x.event.Matches simulated o.version (stateAt o.id xs k))
      (hx : x.event.Leads (stateAt o.id xs k) x.account) :
      Fares o deployed xs k command ⟨.ok (.sent tx), []⟩ (xs ++ [x]) k
  /-- All steps are told and kept. -/
  | synced (hc : command = .sync) :
      Fares o deployed xs k command
        ⟨.ok (.found (xs.length - k)), (xs.drop k).map fun x => x.event.transaction⟩ xs xs.length

/-- But for when things happened, an operation has one way to go. -/
theorem Fares.bare_eq (h : Fares o deployed xs k command r xs' i)
    (h' : Fares o deployed ys k command r' ys' j) (hb : xs.map Step.bare = ys.map Step.bare) :
    r.bare = r'.bare ∧ xs'.map Step.bare = ys'.map Step.bare ∧ i = j := by
  have hstate := bare_stateAt hb o.id k
  have hlen := length_eq_of_bare hb
  have hattempt : command.attempt? o.version (stateAt o.id xs k) =
      command.attempt? o.version (stateAt o.id ys k) := by
    rw [← Command.attempt?_bare, hstate, Command.attempt?_bare]
  cases h with
  | refused ht he =>
    rw [hattempt] at ht
    cases h' with
    | refused ht' he' =>
      obtain rfl := Option.some.inj (ht.symm.trans ht')
      rw [hlen, he'] at he
      cases he
      exact ⟨rfl, hb, rfl⟩
    | moved ht' hok' =>
      obtain rfl := Option.some.inj (ht.symm.trans ht')
      rw [hlen, hok'] at he
      cases he
    | synced hc =>
      subst hc
      cases ht
  | moved ht hok he hm hx =>
    rw [hattempt] at ht
    cases h' with
    | refused ht' he' =>
      obtain rfl := Option.some.inj (ht.symm.trans ht')
      rw [hlen, he'] at hok
      cases hok
    | moved ht' hok' he' hm' hx' =>
      obtain rfl := Option.some.inj (ht.symm.trans ht')
      have hstep := Step.bare_eq hstate he he' hm hm' hx hx'
      refine ⟨rfl, ?_, rfl⟩
      rw [List.map_append, List.map_append, hb, List.map_singleton, List.map_singleton, hstep]
    | synced hc =>
      subst hc
      cases ht
  | synced hc =>
    subst hc
    cases h' with
    | refused ht' => cases ht'
    | moved ht' => cases ht'
    | synced hc' =>
      have htold : ∀ zs : List Step, ((zs.drop k).map fun x => x.event.transaction).map
          Transaction.bare = ((zs.map Step.bare).drop k).map fun x => x.event.transaction := by
        intro zs
        rw [← List.map_drop, List.map_map, List.map_map]
        rfl
      refine ⟨?_, hb, hlen⟩
      rw [Report.bare, Report.bare, htold, htold, hb, hlen]

/-! ## Worlds -/

/-- The report of the operation, and the world afterwards. -/
def World.operate (o : Owner) (p : Party) (command : Command) (w : World) : Report × World :=
  let program := (command.program (o.wallet p)).run
  (⟨(program.run (World.answer p.number p.storage) w).1,
      Trace.reported (program.trace (World.answer p.number p.storage) w)⟩,
    (program.run (World.answer p.number p.storage) w).2)

/-- To everybody but the party, blocks of the account have been added at most. -/
structure World.ConcernsOnly (o : Owner) (p : Party) (N : Nat) (w w' : World) : Prop where
  version_eq : w'.ledger.version = w.ledger.version
  grows : w.ledger.Grows w'.ledger
  blocks : ∀ b ∈ w'.ledger.blocks.drop w.ledger.blocks.length, b.IsOf N o.id
  storages_eq : ∀ number ≠ p.storage, w'.storages number = w.storages number

theorem World.Plain.grows_run {α : Type} (c storage : Nat) (hw : w.Plain)
    (q : Program surroundings α) : w.ledger.Grows (q.run (World.answer c storage) w).2.ledger := by
  have hamid := Program.amid_run (World.answer c storage) (fun _ _ => False) q w
  obtain ⟨-, hg, -⟩ := (World.serves_answer c storage).amid (fun _ _ _ hm => hm.elim) hamid hw
  exact hg

theorem World.Within.quiet (h : w.Within n) (hw : w'.Plain) (hl : w'.ledger.leaves = w.ledger.leaves)
    (hb : w'.ledger.blocks = w.ledger.blocks)
    (he : w'.ledger.encoded.length ≤ w.ledger.encoded.length + 1) : w'.Within (n + 1) where
  plain := hw
  indexed := by
    intro b hmem e he
    rw [hb] at hmem
    rw [hl]
    exact h.indexed b hmem e he
  blocks_le := hb ▸ Nat.le_succ_of_le h.blocks_le
  leaves_le := hl ▸ Nat.le_succ_of_le h.leaves_le
  encoded_le := Nat.le_trans he (Nat.succ_le_succ h.encoded_le)

theorem World.Within.took (h : w.Within n) (hn : n < UInt64.size) {m : Movement} {c : Call m}
    (ht : w.Took c w') : w'.Within (n + 1) := by
  have hl := ht.accepts.leaves_eq
  have hb := ht.accepts.blocks_eq
  have hleaves : w'.ledger.leaves.length ≤ n + 1 := by
    rw [hl, List.length_append, List.length_singleton]
    exact Nat.succ_le_succ h.leaves_le
  have halters : w.ledger.Alters w'.ledger := .event (e := w.ledger.eventOf c) hl hb rfl
  refine ⟨ht.plain, h.indexed.alters halters (by omega), ?_, hleaves, ?_⟩
  · rw [hb, List.length_append, List.length_singleton]
    exact Nat.succ_le_succ h.blocks_le
  · exact Nat.le_trans ht.accepts.encoded_le (Nat.succ_le_succ h.encoded_le)

/-- A movement that is refused leaves the steps, and what is kept of them. -/
theorem Tracks.spared (h : Tracks o p N w xs k) (hw : w.Spared w') (hg : w.ledger.Grows w'.ledger) :
    Tracks o p N w' xs k where
  chain := by
    rw [hw.version_eq]
    exact h.chain.quiet hg hw.version_eq hw.blocks_eq
  outdated := by
    rw [hw.version_eq]
    exact h.outdated
  kept_le := h.kept_le
  stored_eq := by
    rw [hw.storages_eq]
    exact h.stored_eq

/-- A call that continues the last step and is accepted adds a step. -/
theorem Tracks.took (h : Tracks o p N w xs k) (hw : w.Within n) (hd : Distinct N o.id) (hn : n < N)
    (hN : N < UInt64.size) (hversion : o.version = w.ledger.version) (hlast : k = xs.length)
    {m : Movement} {c : Call m} (hc : c.Continues simulated o.version (stateAt o.id xs k))
    (hnew : w.ledger.nullifierBlock? c.key = none) (ht : w.Took c w')
    (hg : w.ledger.Grows w'.ledger) :
    ∃ b, (w.ledger.eventOf c).Leads (stateAt o.id xs k) b ∧
      Tracks o p N w' (xs ++ [⟨w.ledger.eventOf c, b⟩]) k := by
  have hv := ht.accepts.version_eq
  have hblocks := ht.accepts.blocks_eq
  have hlen : w'.ledger.blocks.length ≤ N := by
    rw [hblocks, List.length_append, List.length_singleton]
    exact Nat.le_trans (Nat.succ_le_succ hw.blocks_le) hn
  rw [hversion] at hc
  obtain ⟨b, hchain⟩ := h.chain.extend hd hlen hN h.kept_le hc hg hv
    (Ledger.nullifierBlock?_eq_none_iff.1 hnew) hblocks
  -- the new step starts from the last state, which is the one the wallet has kept
  have hlead := (History.follows_append.1 hchain.leads).2.1
  rw [← stateAt_length, ← hlast] at hlead
  refine ⟨b, hlead, ?_, ?_, ?_, ?_⟩
  · rw [hv]
    exact hchain
  · rw [hv]
    exact fun hne => absurd hversion hne
  · rw [List.length_append]
    exact Nat.le_trans h.kept_le (Nat.le_add_right _ _)
  · rw [ht.storages_eq, List.take_append_of_le_length h.kept_le]
    exact h.stored_eq

/-- A call that continues the account registers one of its search hashes. -/
theorem Tracks.isOf (h : Tracks o p N w xs k) (hw : w.Within n) (hn : n < N) {m : Movement} {c : Call m}
    (hc : c.Continues simulated w.ledger.version (stateAt o.id xs k)) (events : List NoteEvent) :
    Block.IsOf N o.id ⟨c.key, events⟩ := by
  have hle := h.kept_le
  have hlen := h.chain.length_le
  have hbound := hw.blocks_le
  refine ⟨_, ?_, h.chain.key_eq h.kept_le hc⟩
  split <;> omega

/-- However a movement ends, the account fares accordingly. -/
theorem Settles.fares {t : Attempt} {result : Except Failure Hash256}
    (hs : Settles o w (stateAt o.id xs k) t k xs.length result w') (h : Tracks o p N w xs k)
    (hw : w.Within n) (hd : Distinct N o.id) (hn : n < N) (hN : N < UInt64.size)
    (ht : command.attempt? o.version (stateAt o.id xs k) = some t)
    (hg : w.ledger.Grows w'.ledger) :
    ∃ ys, Fares o w.ledger.version xs k command ⟨result.map .sent, []⟩ ys k ∧
      Tracks o p N w' ys k ∧ w'.Within (n + 1) ∧ w'.ledger.version = w.ledger.version ∧
      ∀ b ∈ w'.ledger.blocks.drop w.ledger.blocks.length, b.IsOf N o.id := by
  cases hs with
  | refused he hw' =>
    have hb := hw'.blocks_eq
    refine ⟨xs, .refused ht he, h.spared hw' hg, hw.quiet hw'.plain hw'.leaves_eq hb hw'.encoded_le,
      hw'.version_eq, ?_⟩
    rw [hb, List.drop_length]
    simp
  | @moved tx w' c hok hc hamount hpayout hnew hw' =>
    obtain ⟨hversion, hlast⟩ := Attempt.settle_eq_ok hok
    obtain ⟨b, hlead, htracks⟩ := h.took hw hd hn hN hversion hlast hc hnew hw' hg
    -- an opening was accepted from an account without steps
    have hopening : t.movement = .opening → (stateAt o.id xs k).isUnopened = true := by
      intro hm
      have happlies := hlead.1
      rw [show (w.ledger.eventOf c).movement = .opening from hm] at happlies
      exact happlies
    refine ⟨_, .moved ht hok (x := ⟨w.ledger.eventOf c, b⟩) ?_
      ⟨hc.appliesTo hopening, hc.nonce_ne, hc.note⟩ hlead, htracks, hw.took (by omega) hw',
      hw'.accepts.version_eq, ?_⟩
    · show (w.ledger.nextEvent t.movement c.amount c.note (Ledger.payout c).1
        (Ledger.payout c).2).bare = _
      rw [hpayout, hamount]
      rfl
    · intro block hmem
      rw [hw'.accepts.blocks_eq, List.drop_left, List.mem_singleton] at hmem
      rw [hversion] at hc
      rw [hmem]
      exact h.isOf hw hn hc _

/-- A pass tells the steps that were missing, and keeps all of them. -/
theorem Tracks.sync (h : Tracks o p N w xs k) (hw : w.Within n) (hd : Distinct N o.id) (hn : n < N) :
    ∃ w', w.operate o p .sync = (⟨.ok (.found (xs.length - k)),
        (xs.drop k).map fun x => x.event.transaction⟩, w') ∧
      Tracks o p N w' xs xs.length ∧ w'.Within (n + 1) ∧ w.ledger.Alike w'.ledger := by
  have hN : w.ledger.blocks.length ≤ N := Nat.le_trans hw.blocks_le (Nat.le_of_lt hn)
  obtain ⟨w', hw', hpass⟩ := (h.entire hd hN).pass (World.serves_answer p.number p.storage)
    (World.steady_answer p.number p.storage)
    (World.keeps_answer p.number p.storage (o.register p).key) hw.plain h.read_eq
  obtain ⟨hrun, htrace⟩ := Action.run_reporting_ok .syncing .sync hpass.run_eq
  have hconfined : (History.pass o.version (o.register p)).run.Confined
      (Query.IsOfPass (o.register p).key) := History.confined_pass
  have halike := hw.plain.ledger_alike p.number p.storage hconfined
  have hg := hw.plain.grows_run p.number p.storage (History.pass o.version (o.register p)).run
  rw [hpass.run_eq] at halike hg
  have hv := halike.version_eq
  refine ⟨w', ?_, ⟨?_, ?_, Nat.le_refl _, ?_⟩, ?_, halike⟩
  · simp only [World.operate, Command.program]
    rw [Action.run_bind_pure, Action.trace_bind_pure]
    simp only [Wallet.sync, Owner.wallet, Owner.settings]
    rw [hrun, htrace, hpass.reported_eq, List.length_drop]
    rfl
  · rw [hv]
    exact h.chain.quiet hg hv halike.blocks_eq
  · rw [hv]
    exact h.outdated
  · have hstored : w.storages p.storage (o.register p).key = _ := h.stored_eq
    have hitem : w'.storages p.storage p.storageKey = _ := hpass.item_eq
    rw [hitem, hstored, ← List.getLast?_append, ← List.map_append, List.take_append_drop,
      List.take_length]
  · refine hw.quiet hw' halike.leaves_eq halike.blocks_eq ?_
    rw [halike.encoded_eq]
    exact Nat.le_succ _

/-- The account fares accordingly in every operation. -/
theorem Tracks.operate (h : Tracks o p N w xs k) (hw : w.Within n) (hd : Distinct N o.id) (hn : n < N)
    (hN : N < UInt64.size) (command : Command) :
    ∃ ys j, Fares o w.ledger.version xs k command (w.operate o p command).1 ys j ∧
      Tracks o p N (w.operate o p command).2 ys j ∧ (w.operate o p command).2.Within (n + 1) ∧
      w.ConcernsOnly o p N (w.operate o p command).2 := by
  have hg : w.ledger.Grows (w.operate o p command).2.ledger := hw.plain.grows_run _ _ _
  have hstorages : ∀ number ≠ p.storage,
      (w.operate o p command).2.storages number = w.storages number :=
    fun number hne => World.storages_run_of_ne hne _ w
  by_cases hc : command = .sync
  · subst hc
    obtain ⟨w', hoperate, htracks, hwithin, halike⟩ := h.sync hw hd hn
    rw [hoperate] at hg hstorages ⊢
    refine ⟨xs, xs.length, .synced rfl, htracks, hwithin, halike.version_eq, hg, ?_, hstorages⟩
    rw [halike.blocks_eq, List.drop_length]
    simp
  · obtain ⟨t, result, w', ht, hrun, hsettles⟩ := h.move hw hd hn hN hc
    have hyield := Program.yields_trace (World.answer p.number p.storage)
      (command.program (o.wallet p)).run w
    have hquiet := Trace.reported_of_movement (hyield.confined (Command.confined_program hc))
    have hoperate : w.operate o p command = (⟨result.map .sent, []⟩, w') := by
      rw [World.operate, hrun, hquiet]
    rw [hoperate] at hg hstorages ⊢
    obtain ⟨ys, hfares, htracks, hwithin, hv, hblocks⟩ := hsettles.fares h hw hd hn hN ht hg
    exact ⟨ys, k, hfares, htracks, hwithin, hv, hg, hblocks, hstorages⟩

end Simulation

end ShieldedWallet
