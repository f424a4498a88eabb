import ShieldedWallet.Proofs.Simulation.Reading

/-!
# The simulated prover

In a plain world the wallets ask the simulated prover themselves, and it refuses nothing. Then the
search hashes of an account and its notes are plain functions of what it consists of, and a block that
registers the search hash of an account and holds one matching event is a step of the account.
-/

namespace ShieldedWallet.Simulation

abbrev simulated : Oracle proving := proverAnswer false

/-- The search hash of an account that has created `n` notes. -/
def searchHash (id : Scalar) : Nat → Scalar
  | 0 => hash [id]
  | n + 1 => hash [(secrets id (.ofNat n)).nullifier]

theorem simulated_hash {inputs : List Scalar} (h : inputs.length ≤ arity) :
    simulated (.hash inputs) = .ok (hash inputs) := by
  simp [simulated, proverAnswer, hash?, Nat.not_lt.2 h]

theorem simulated_hash_one (x : Scalar) : simulated (.hash [x]) = .ok (hash [x]) :=
  simulated_hash (by simp [arity])

/-- The note that a wallet makes by asking the simulated prover. -/
def walletNote (version : ContractVersion) (id : Scalar) (nonce : UInt64) (balance : UInt256) :
    Scalar :=
  hash (Note.inputs version id (secrets id nonce) (hash (Note.balanceInputs arity balance)))

theorem isNote_iff {version : ContractVersion} {id x : Scalar} {nonce : UInt64} {balance : UInt256} :
    Note.IsNote simulated version id nonce balance x ↔ x = walletNote version id nonce balance := by
  have hbalance : simulated (.hash (Note.balanceInputs arity balance)) =
      .ok (hash (Note.balanceInputs arity balance)) :=
    simulated_hash (by simp [Note.balanceInputs, arity])
  have hnote : simulated (.hash (Note.inputs version id (secrets id nonce)
      (hash (Note.balanceInputs arity balance)))) = .ok (walletNote version id nonce balance) :=
    simulated_hash (by simp [Note.inputs, arity])
  constructor
  · rintro ⟨s, k, h, hs, hk, hh, hx⟩
    obtain rfl : secrets id nonce = s := Except.ok.inj hs
    obtain rfl : arity = k := Except.ok.inj hk
    obtain rfl := Except.ok.inj (hbalance.symm.trans hh)
    exact Except.ok.inj (hx.symm.trans hnote)
  · rintro rfl
    exact ⟨_, _, _, rfl, rfl, hbalance, hnote⟩

theorem walletNote_eq {version : ContractVersion} {id : Scalar} {nonce : UInt64} {balance : UInt256}
    (hv : version.noteVersion = noteVersion) :
    walletNote version id nonce balance = note id (secrets id nonce) (.ofUInt256 balance) := by
  rw [walletNote, Note.inputs, hv]
  rfl

/-- The wallet and the prover agree on what a note is. -/
theorem isNote_simulated {version : ContractVersion} {id x : Scalar} {nonce : UInt64}
    {balance : UInt256} (hv : version.noteVersion = noteVersion) :
    Note.IsNote simulated version id nonce balance x ↔
      x = note id (secrets id nonce) (.ofUInt256 balance) := by
  rw [isNote_iff, walletNote_eq hv]

variable {version : ContractVersion} {a : Account} {m : Movement} {amount balance : UInt256}
  {e : NoteEvent} {l : Ledger}

theorem searchHash_of_isSearchHash {h : Scalar} (hs : History.IsSearchHash simulated a h) :
    h = searchHash a.id a.nonce.toNat := by
  cases a with
  | unopened id => exact Except.ok.inj (hs.symm.trans (simulated_hash_one id))
  | opened holding =>
    obtain ⟨h0, s, hs, hh⟩ := hs
    obtain rfl : secrets holding.id (holding.nonce - 1) = s := Except.ok.inj hs
    have hh' := Except.ok.inj (hh.symm.trans (simulated_hash_one _))
    obtain ⟨n, hn⟩ := Nat.exists_eq_add_one_of_ne_zero (fun h => h0 (UInt64.toNat_inj.1 h))
    have hpred : holding.nonce - 1 = .ofNat n := by
      apply UInt64.toNat_inj.1
      have hlt := holding.nonce.toNat_lt
      rw [UInt64.toNat_sub_of_le _ _ (by rw [UInt64.le_iff_toNat_le, hn]; simp), hn,
        UInt64.toNat_ofNat_of_lt' (by simp only [UInt64.size]; omega)]
      simp
    show h = searchHash holding.id holding.nonce.toNat
    rw [hn, hh', hpred]
    rfl

/-! ## Evaluating a step -/

section Eval

variable {o : Oracle surroundings}

theorem eval_searchKey (ho : ∀ q, o (.prover q) = simulated q)
    (ha : a.isUnopened = true ∨ a.nonce ≠ 0) :
    ∃ key, (SearchKey.ofAccount a).run.eval o = .ok key ∧
      hash [key.value] = searchHash a.id a.nonce.toNat := by
  cases a with
  | unopened id => exact ⟨.accountId id, rfl, rfl⟩
  | opened holding =>
    have h0 : holding.nonce ≠ 0 := by simpa [Account.isUnopened, Account.nonce] using ha
    have hnonce : holding.noteNonce = .ok (holding.nonce - 1) := by
      simp [Holding.noteNonce, Holding.noteNonce?, h0]
    have hsecrets : o (.prover (.secrets holding.id (holding.nonce - 1))) =
        .ok (secrets holding.id (holding.nonce - 1)) := ho _
    refine ⟨.nullifier (secrets holding.id (holding.nonce - 1)).nullifier, ?_, ?_⟩
    · rw [SearchKey.ofAccount, Action.eval_bind_ok (a := holding.nonce - 1) (by simpa using hnonce),
        Action.eval_bind_ok (Action.eval_prover_ok hsecrets)]
      rfl
    · exact searchHash_of_isSearchHash (a := .opened holding)
        ⟨h0, _, rfl, simulated_hash_one _⟩

theorem eval_next? {f : Oracle proving} (ho : ∀ q, o (.prover q) = f q) {note : Scalar}
    (hb : m.balanceAfter? a.balance amount = some balance)
    (hnote : Note.IsNote f version a.id a.nonce balance note) :
    (Note.next? version m a amount).run.eval o =
      if a.nonce = Note.maxNonce then .error .nonceOverflow
      else .ok (some (.opened ⟨a.id, a.nonce + 1, balance, note, none⟩)) := by
  obtain ⟨s, k, h, hs, hk, hh, hnote⟩ := hnote
  have hbalance : (Note.balanceHash balance).run.eval o = .ok h := by
    rw [Note.balanceHash, Action.eval_bind_ok (Action.eval_prover_ok ((ho .arity).trans hk))]
    exact Action.eval_prover_ok ((ho _).trans hh)
  have hcommit : (Note.commit version a.id s balance).run.eval o = .ok note := by
    rw [Note.commit, Action.eval_bind_ok hbalance]
    exact Action.eval_prover_ok ((ho _).trans hnote)
  unfold Note.next?
  simp only [hb]
  rw [Action.eval_bind_ok (Action.eval_prover_ok ((ho _).trans hs)), Action.eval_bind_ok hcommit]
  split <;> rfl

theorem eval_note {f : Oracle proving} (ho : ∀ q, o (.prover q) = f q) {note : Scalar}
    (hb : m.balanceAfter? a.balance amount = some balance) (hn : a.nonce ≠ Note.maxNonce)
    (hnote : Note.IsNote f version a.id a.nonce balance note) :
    (Note.next? version m a amount).run.eval o =
      .ok (some (.opened ⟨a.id, a.nonce + 1, balance, note, none⟩)) :=
  (eval_next? ho hb hnote).trans (if_neg hn)

/-- Recomputing what a matching event claims leads to an account with its note. -/
theorem eval_claimed {f : Oracle proving} (ho : ∀ q, o (.prover q) = f q)
    (hm : e.Matches f version a) :
    ∃ next, (e.claimed? version a).run.eval o = .ok (some next) ∧ e.announces (some next) = true := by
  obtain ⟨happlies, hmax, balance, hb, hnote⟩ := hm
  refine ⟨.opened ⟨a.id, a.nonce + 1, balance, e.note, none⟩, ?_,
    NoteEvent.announces_iff.2 ⟨_, rfl, rfl⟩⟩
  rw [NoteEvent.claimed?, if_pos happlies]
  exact Action.eval_tryCatch_ok (eval_note ho hb hmax hnote)

/-- A matching event is found in a block of its own. -/
theorem eval_select (ho : ∀ q, o (.prover q) = simulated q) (hm : e.Matches simulated version a)
    (hv : e.version = version) (block : UInt64) :
    (History.select version a block [e]).run.eval o = .ok e := by
  obtain ⟨next, hclaimed, hannounces⟩ := eval_claimed ho hm
  have hcontinuing : (NoteEvent.continuing version a [e]).run.eval o = .ok [e] := by
    rw [NoteEvent.continuing, Action.eval_bind_ok hclaimed, NoteEvent.continuing,
      Action.eval_bind_ok (Action.eval_pure _), if_pos hannounces]
    rfl
  rw [History.select, Action.eval_bind_ok hcontinuing]
  simp only [if_pos hv]
  rfl

/-- In a block of its own nothing is found, if the event claims nothing. -/
theorem eval_select_none (h : (e.claimed? version a).run.eval o = .ok none) (block : UInt64) :
    (History.select version a block [e]).run.eval o = .error (.history (.eventCount block 0)) := by
  have hcontinuing : (NoteEvent.continuing version a [e]).run.eval o = .ok [] := by
    rw [NoteEvent.continuing, Action.eval_bind_ok h, NoteEvent.continuing,
      Action.eval_bind_ok (Action.eval_pure _)]
    rfl
  rw [History.select, Action.eval_bind_ok hcontinuing]
  rfl

/-- A matching event that is the only one of its block leads to the next account. -/
theorem eval_step (ho : ∀ q, o (.prover q) = simulated q) (ha : a.isUnopened = true ∨ a.nonce ≠ 0)
    (hm : e.Matches simulated version a) (hv : e.version = version) {block : UInt64}
    (hblock : o (.contract (.nullifierBlock (searchHash a.id a.nonce.toNat))) = .ok (some block))
    (hes : o (.contract (.events block)) = .ok [e]) :
    ∃ b, (History.next? version a).run.eval o = .ok (some (b, e)) := by
  obtain ⟨key, hkey, hvalue⟩ := eval_searchKey ho ha
  have hhash : o (.prover (.hash [key.value])) = .ok (searchHash a.id a.nonce.toNat) := by
    rw [ho, ← hvalue]
    exact simulated_hash_one _
  obtain ⟨next, hclaimed, hannounces⟩ := eval_claimed ho hm
  have happly : (e.apply version a).run.eval o = .ok (next.withNoteIndex e.noteIndex) := by
    rw [NoteEvent.apply, Action.eval_bind_ok hclaimed]
    simp only [if_pos hannounces]
    rfl
  refine ⟨next.withNoteIndex e.noteIndex, ?_⟩
  rw [History.next?, Action.eval_bind_ok hkey, Action.eval_bind_ok (Action.eval_prover_ok hhash),
    Action.eval_bind_ok (Action.eval_contract_ok hblock)]
  show ((Action.contract (.events block)) >>= _ : Action _).run.eval o = _
  rw [Action.eval_bind_ok (Action.eval_contract_ok hes),
    Action.eval_bind_ok (eval_select ho hm hv block), Action.eval_bind_ok happly]
  rfl

/-- An account whose search hash is not registered has no next one. -/
theorem eval_no_step (ho : ∀ q, o (.prover q) = simulated q)
    (ha : a.isUnopened = true ∨ a.nonce ≠ 0)
    (hblock : o (.contract (.nullifierBlock (searchHash a.id a.nonce.toNat))) = .ok none) :
    (History.next? version a).run.eval o = .ok none := by
  obtain ⟨key, hkey, hvalue⟩ := eval_searchKey ho ha
  have hhash : o (.prover (.hash [key.value])) = .ok (searchHash a.id a.nonce.toNat) := by
    rw [ho, ← hvalue]
    exact simulated_hash_one _
  rw [History.next?, Action.eval_bind_ok hkey, Action.eval_bind_ok (Action.eval_prover_ok hhash),
    Action.eval_bind_ok (Action.eval_contract_ok hblock)]
  rfl

end Eval

/-! ## Plain worlds -/

namespace World

/-- Nothing is planned, and the wallets ask the prover themselves. -/
structure Direct (w : World) : Prop extends Undisturbed w where
  link : w.link = .direct

/-- Nothing is planned, and the wallets ask the prover themselves, which refuses nothing. -/
structure Plain (w : World) : Prop extends Undisturbed w where
  link : w.link = .direct
  refusing : w.prover.refusing = false

variable {c storage : Nat} {w : World}

theorem Plain.direct (h : w.Plain) : w.Direct := ⟨h.toUndisturbed, h.link⟩

theorem Direct.answer_prover (h : w.Direct) (q : ProverQuery) :
    answer c storage (.prover q) w = (proverAnswer w.prover.refusing q,
      { w with prover := { w.prover with calls := w.prover.calls + 1 } }) := by
  have hs : w.substitutes.proverAnswer? q = none := by
    rw [h.substitutes]
    cases q <;> rfl
  have ha : w.askProver q = (proverAnswer w.prover.refusing q,
      { w with prover := { w.prover with calls := w.prover.calls + 1 } }) := by
    simp only [askProver, h.link, Simulation.prover]
  rw [h.answer_eq]
  simp only [answerTrue, hs, ha]
  rw [h.substitutes]
  cases q <;> rfl

/-- No question changes how the prover is reached, or whether it refuses. -/
theorem Direct.unchanged_answer (h : w.Direct) (q : Query) :
    (answer c storage q w).2.link = w.link ∧
      (answer c storage q w).2.prover.refusing = w.prover.refusing := by
  cases q with
  | prover q =>
    rw [h.answer_prover]
    exact ⟨rfl, rfl⟩
  | contract q =>
    rw [h.answer_contract]
    exact ⟨rfl, rfl⟩
  | relayer q =>
    rw [h.answer_eq]
    cases q <;> exact ⟨rfl, rfl⟩
  | submit tx =>
    obtain ⟨sent, he⟩ := execute_eq w tx
    rw [h.answer_eq, answerTrue, he]
    exact ⟨rfl, rfl⟩
  | _ =>
    rw [h.answer_eq]
    exact ⟨rfl, rfl⟩

theorem Direct.answer (h : w.Direct) (q : Query) : (answer c storage q w).2.Direct :=
  ⟨h.toUndisturbed.answer q, (h.unchanged_answer q).1.trans h.link⟩

theorem Plain.answer_prover (h : w.Plain) (q : ProverQuery) :
    answer c storage (.prover q) w =
      (simulated q, { w with prover := { w.prover with calls := w.prover.calls + 1 } }) := by
  rw [h.direct.answer_prover, h.refusing]

theorem Plain.answer (h : w.Plain) (q : Query) : (answer c storage q w).2.Plain where
  toUndisturbed := h.toUndisturbed.answer q
  link := (h.direct.unchanged_answer q).1.trans h.link
  refusing := (h.direct.unchanged_answer q).2.trans h.refusing

/-- A plain world serves a wallet with the simulated prover. -/
theorem serves_answer (c storage : Nat) : Serves simulated (World.answer c storage) Plain where
  stays h := h.answer _
  grows h := h.grows_answer _
  quiet h hq := (h.unchanged_answer hq).1
  lookup {q w} h hq := by
    cases q with
    | prover q =>
      rw [h.answer_prover]
      rfl
    | contract q =>
      rw [h.answer_contract]
      rfl
    | _ => exact hq.elim

theorem Undisturbed.answer_load (h : w.Undisturbed) (key : String) :
    World.answer c storage (.load key) w = (.ok (w.storages storage key), w) := by
  rw [h.answer_eq]
  rfl

theorem Undisturbed.run_load (h : w.Undisturbed) (f : Oracle proving) (c storage : Nat)
    (r : Register) :
    r.load.run.run (World.answerBy f c storage) w = (r.read (w.storages storage r.key), w) := by
  have hload : (Action.load r.key).run.run (World.answerBy f c storage) w =
      (.ok (w.storages storage r.key), w) := Action.run_ofProgram_ok (h.answer_load r.key)
  rw [Register.load, Action.run_bind_ok hload]
  rfl

theorem Undisturbed.answer_store (h : w.Undisturbed) (key : String) (x : Bytes) :
    World.answer c storage (.store key x) w = (.ok (), w.storeItem storage key x) := by
  rw [h.answer_eq]
  rfl

theorem Undisturbed.answer_submit (h : w.Undisturbed) (tx : TransactionRequest) :
    World.answer c storage (.submit tx) w = w.execute tx := by
  rw [h.answer_eq]
  rfl

theorem Undisturbed.answer_relayer (h : w.Undisturbed) (q : RelayerQuery) :
    World.answer c storage (.relayer q) w = w.askRelayer q := by
  rw [h.answer_eq]
  rfl

end World

end ShieldedWallet.Simulation
