import ShieldedWallet.Proofs.Simulation.Proving

/-!
# What becomes of a preparation

The account and the amount decide whether a movement can be prepared, and what is said if it cannot. The
place of the note among the leaves, the nodes beside it and the root above it play no part: the wallet
and the prover compute the same from any path that begins with the note.
-/

namespace ShieldedWallet.Simulation

open ShieldedWallet.Action

variable {o : Oracle surroundings} {version expected : ContractVersion} {m : Movement} {a : Account}
  {h : Holding} {amount b : UInt256} {terms : Terms m} {nodes : List Scalar} {impossible : Failure}

/-- What the prover makes of a movement of the holding to the balance `b`. -/
def provable (version : ContractVersion) (m : Movement) (h : Holding) (amount b : UInt256) :
    Except Failure Unit :=
  match provedBalance? m h.balance amount with
  | none => .error (.whileProving m (.prover (.backend "new balance is out of range")))
  | some left =>
    if h.note = note h.id (secrets h.id (h.nonce - 1)) (.ofUInt256 h.balance) then
      if note h.id (secrets h.id h.nonce) (.ofUInt256 left) = walletNote version h.id h.nonce b then
        .ok ()
      else .error (.statementMismatch m)
    else .error (.whileProving m (.prover (.backend "merkle path does not open the spent note")))

/-- What becomes of a movement that spends the note of the account. -/
def spendable (version : ContractVersion) (m : Movement) (a : Account) (amount : UInt256)
    (impossible : Failure) : Except Failure Unit :=
  match m.balanceAfter? a.balance amount with
  | none => .error impossible
  | some b =>
    if a.nonce = Note.maxNonce then .error .nonceOverflow
    else match a with
      | .unopened _ => .error (.notOnChain "account has no note")
      | .opened h => provable version m h amount b

/-- What becomes of a withdrawal, which is checked by the wallet first. -/
def withdrawable (version : ContractVersion) (a : Account) (amount fee : UInt256) :
    Except Failure Unit := do
  Withdrawal.check a amount fee
  spendable version .withdrawal a amount (.insufficientFunds a.balance amount)

/-- What becomes of the opening of an account. -/
def openable (version : ContractVersion) (a : Account) (amount : UInt256) : Except Failure Unit :=
  if note a.id (secrets a.id a.nonce) (.ofUInt256 amount) = walletNote version a.id a.nonce amount then
    .ok ()
  else .error (.statementMismatch .opening)

/-- The call is one for `amount` and `terms` that the ledger finds nothing wrong with. -/
structure Proper (amount : UInt256) (terms : Terms m) (expected : ContractVersion) (c : Calldata m) :
    Prop where
  version_eq : c.version = expected
  amount_eq : c.call.amount = amount
  terms_eq : c.call.terms = terms
  checked : Ledger.checkedCall expected m c.call = .ok c.call

/-- A preparation ends as it was said: with the failure, or with a call for `amount` and `terms` that the
ledger finds nothing wrong with. -/
inductive Prepares (amount : UInt256) (terms : Terms m) (expected : ContractVersion) :
    Except Failure Unit → Except Failure (Calldata m) → Prop where
  | fails (e : Failure) : Prepares amount terms expected (.error e) (.error e)
  | makes {c : Calldata m} (hc : Proper amount terms expected c) :
      Prepares amount terms expected (.ok ()) (.ok c)

theorem Prepares.made {r : Except Failure (Calldata m)} (h : Prepares amount terms expected (.ok ()) r) :
    ∃ c, r = .ok c ∧ Proper amount terms expected c := by
  cases h with
  | makes hc => exact ⟨_, rfl, hc⟩

theorem Prepares.failed {r : Except Failure (Calldata m)} {e : Failure}
    (h : Prepares amount terms expected (.error e) r) : r = .error e := by
  cases h
  rfl

/-- The oracle is one with the simulated prover and a ledger on which the note of the holding is where the
holding says. -/
structure Shown (o : Oracle surroundings) (h : Holding) : Prop where
  prover : ∀ q, o (.prover q) = simulated q
  path : ∃ index, h.noteIndex = some index ∧ o (.contract (.path index)) =
    .ok (Ledger.pathNodes h.note index ++ [merkleRoot (Ledger.pathNodes h.note index)])
  nonce_ne : h.nonce ≠ 0

/-! ## Openings -/

theorem prepares_opening (version expected : ContractVersion) (amount : UInt256)
    (ho : ∀ q, o (.prover q) = simulated q) (hn : a.nonce ≠ Note.maxNonce) :
    Prepares amount () expected (openable version a amount)
      ((Opening.prepare version a amount expected).run.eval o) := by
  let stated : OpeningStatement :=
    ⟨walletNote version a.id a.nonce amount, hash [a.id], .ofUInt256 amount⟩
  let proved : OpeningStatement :=
    ⟨note a.id (secrets a.id a.nonce) (.ofUInt256 amount), hash [a.id], .ofUInt256 amount⟩
  let w : Witness .opening := ⟨a.id, secrets a.id a.nonce, .ofUInt256 amount⟩
  have hnext : (Note.next? version .opening a amount).run.eval o =
      .ok (some (.opened ⟨a.id, a.nonce + 1, amount, stated.note, none⟩)) :=
    eval_note ho rfl hn (isNote_iff.2 rfl)
  have hstated : (Opening.statement version a amount).run.eval o = .ok stated := by
    rw [Opening.statement, eval_bind_ok hnext]
    show (Note.hashOne a.id >>= _ : Action OpeningStatement).run.eval o = _
    rw [Note.hashOne, eval_bind_ok (eval_prover_ok ((ho _).trans (simulated_hash_one _)))]
    rfl
  have hproved : statement? .opening w = .ok proved := rfl
  rw [Opening.prepare, eval_bind_ok (eval_prover_ok (ho _))]
  unfold openable
  by_cases hnote : proved.note = stated.note
  · have hsame : proved = stated := by
      simp only [proved, stated] at hnote ⊢
      rw [hnote]
    rw [hsame] at hproved
    rw [if_pos hnote, eval_bind_ok (eval_certify ho hproved hstated)]
    exact .makes ⟨rfl, rfl, rfl, if_pos ⟨rfl, rfl⟩⟩
  · have hne : proved ≠ stated := fun he => hnote (congrArg OpeningStatement.note he)
    rw [if_neg hnote, eval_bind_error (eval_certify_mismatch ho hproved hstated hne)]
    exact .fails _

/-! ## Spendings -/

/-- What is gathered, with the note that the wallet makes. -/
def walletSpending (version : ContractVersion) (h : Holding) (nodes : List Scalar) (amount b : UInt256) :
    Spending :=
  { spending h nodes amount b with note := walletNote version h.id h.nonce b }

/-- What the wallet states of it. -/
def walletStatement (version : ContractVersion) (h : Holding) (nodes : List Scalar)
    (amount b : UInt256) : SpendStatement :=
  spendStatement h nodes amount (walletNote version h.id h.nonce b)

theorem eval_walletStatement (version : ContractVersion) (h : Holding) (nodes : List Scalar)
    (amount b : UInt256) (ho : ∀ q, o (.prover q) = simulated q) :
    (walletSpending version h nodes amount b).statement.run.eval o =
      .ok (walletStatement version h nodes amount b) :=
  eval_statement ho _

/-- What was gathered is certified as the prover makes of it. Deposits and withdrawals state it each in
their own form `f`. -/
theorem eval_certify_spending (ho : ∀ q, o (.prover q) = simulated q)
    (hnodes : nodes.head? = some h.note) {w : Witness m} {statement : Action (Statement m)}
    {f : SpendStatement → Statement m} (hf : f.Injective)
    (hproved : statement? m w =
      (spend (spending h nodes amount b).witness (provedBalance? m h.balance amount)).map f)
    (hstated : statement.run.eval o = .ok (f (walletStatement version h nodes amount b))) :
    (Calldata.certify m w statement).run.eval o = (provable version m h amount b).map fun _ =>
      (f (walletStatement version h nodes amount b),
        proof m (f (walletStatement version h nodes amount b))) := by
  unfold provable
  cases hleft : provedBalance? m h.balance amount with
  | none =>
    rw [hleft] at hproved
    exact eval_certify_error ho hproved
  | some left =>
    rw [hleft, spend_spending hnodes] at hproved
    by_cases hspent : h.note = note h.id (secrets h.id (h.nonce - 1)) (.ofUInt256 h.balance)
    · rw [if_pos hspent] at hproved
      simp only [if_pos hspent]
      by_cases hnote : note h.id (secrets h.id h.nonce) (.ofUInt256 left) =
          walletNote version h.id h.nonce b
      · rw [hnote] at hproved
        rw [if_pos hnote, eval_certify ho hproved hstated]
        rfl
      · rw [if_neg hnote]
        refine eval_certify_mismatch ho hproved hstated fun he => hnote ?_
        have hsame := congrArg SpendStatement.note (hf he)
        exact hsame
    · rw [if_neg hspent] at hproved
      simp only [if_neg hspent]
      exact eval_certify_error ho hproved

/-- What becomes of the rest of a preparation, once everything is gathered for it, decides what becomes of
the preparation. -/
theorem prepares_gather {rest : Spending → Action (Calldata m)}
    (ho : ∀ q, o (.prover q) = simulated q) (hshown : ∀ h, a = .opened h → Shown o h)
    (hrest : ∀ h b index, a = .opened h → m.balanceAfter? h.balance amount = some b →
      Prepares amount terms expected (provable version m h amount b)
        ((rest (walletSpending version h (Ledger.pathNodes h.note index) amount b)).run.eval o)) :
    Prepares amount terms expected (spendable version m a amount impossible)
      ((Spending.gather version m a amount impossible >>= rest).run.eval o) := by
  unfold spendable
  cases hb : m.balanceAfter? a.balance amount with
  | none =>
    have hnext : (Note.next? version m a amount).run.eval o = .ok none := by
      simp only [Note.next?, hb]
      rfl
    have hgather : (Spending.gather version m a amount impossible).run.eval o = .error impossible := by
      rw [Spending.gather, eval_bind_ok hnext]
      rfl
    rw [eval_bind_error hgather]
    exact .fails _
  | some b =>
    by_cases hn : a.nonce = Note.maxNonce
    · have hnote : Note.IsNote simulated version a.id a.nonce b
          (walletNote version a.id a.nonce b) := isNote_iff.2 rfl
      have hnext : (Note.next? version m a amount).run.eval o = .error .nonceOverflow :=
        (eval_next? ho hb hnote).trans (if_pos hn)
      have hgather : (Spending.gather version m a amount impossible).run.eval o =
          .error .nonceOverflow := eval_bind_error hnext
      rw [eval_bind_error hgather]
      simp only [if_pos hn]
      exact .fails _
    · simp only [if_neg hn]
      cases a with
      | unopened id =>
        have hnote : Note.IsNote simulated version id 0 b (walletNote version id 0 b) := isNote_iff.2 rfl
        have hgather : (Spending.gather version m (.unopened id) amount impossible).run.eval o =
            .error (.notOnChain "account has no note") := by
          rw [Spending.gather, eval_bind_ok (eval_note ho hb hn hnote)]
          rfl
        rw [eval_bind_error hgather]
        exact .fails _
      | opened h =>
        obtain ⟨-, ⟨index, hindex, hpath⟩, h0⟩ := hshown h rfl
        rw [eval_bind_ok (eval_gather ho h0 hn hb (isNote_iff.2 rfl) hindex hpath impossible)]
        exact hrest h b index rfl hb

/-- A call is made of what was certified if the ledger finds nothing wrong with it. -/
theorem prepares_certify {w : Witness m} {statement : Action (Statement m)} {stated : Statement m}
    {verdict : Except Failure Unit}
    (hcertify : (Calldata.certify m w statement).run.eval o =
      verdict.map fun _ => (stated, proof m stated))
    (hchecked : Ledger.checkedCall expected m ⟨stated, proof m stated, amount, terms⟩ =
      .ok ⟨stated, proof m stated, amount, terms⟩) :
    Prepares amount terms expected verdict
      ((Calldata.certify m w statement >>= fun r =>
        pure (⟨⟨r.1, r.2, amount, terms⟩, expected⟩ : Calldata m)).run.eval o) := by
  cases verdict with
  | error e =>
    rw [eval_bind_error hcertify]
    exact .fails e
  | ok u =>
    rw [eval_bind_ok hcertify]
    exact .makes ⟨rfl, rfl, rfl, hchecked⟩

theorem prepares_deposit (version expected : ContractVersion) (amount : UInt256)
    (ho : ∀ q, o (.prover q) = simulated q) (hshown : ∀ h, a = .opened h → Shown o h) :
    Prepares amount () expected
      (spendable version .deposit a amount (.balanceOverflow a.balance amount))
      ((Deposit.prepare version a amount expected).run.eval o) := by
  refine prepares_gather ho hshown fun h b index ha hb => ?_
  have hstated := eval_walletStatement version h (Ledger.pathNodes h.note index) amount b ho
  have hproved : statement? .deposit (spending h (Ledger.pathNodes h.note index) amount b).witness =
      (spend (spending h (Ledger.pathNodes h.note index) amount b).witness
        (provedBalance? .deposit h.balance amount)).map id := by
    rw [Except.map_id]
    rfl
  have hcertify := eval_certify_spending ho rfl Function.injective_id hproved hstated
  exact prepares_certify hcertify (if_pos ⟨rfl, rfl⟩)

theorem fee_le_of_check {fee : UInt256} (h : Withdrawal.check a amount fee = .ok ()) :
    ¬ amount < fee := by
  intro hlt
  unfold Withdrawal.check at h
  split at h
  · cases h
  · cases h

theorem prepares_withdrawal (version expected : ContractVersion) (amount : UInt256) (payout : Payout)
    (ho : ∀ q, o (.prover q) = simulated q) (hshown : ∀ h, a = .opened h → Shown o h) :
    Prepares amount payout expected (withdrawable version a amount payout.fee)
      ((Withdrawal.prepare version a amount payout expected).run.eval o) := by
  unfold withdrawable
  cases hcheck : Withdrawal.check a amount payout.fee with
  | error e =>
    have hfails : (Withdrawal.prepare version a amount payout expected).run.eval o = .error e := by
      rw [Withdrawal.prepare]
      exact eval_bind_error (by simpa using hcheck)
    rw [hfails]
    exact .fails e
  | ok u =>
    rw [Withdrawal.prepare, eval_bind_ok (a := ()) (by simpa using hcheck)]
    refine prepares_gather ho hshown fun h b index ha hb => ?_
    let commitment := payout.commitment expected
    let state : SpendStatement → WithdrawalStatement := fun st => ⟨st, commitment⟩
    have hinjective : state.Injective := fun st st' he =>
      congrArg WithdrawalStatement.toSpendStatement he
    have hstated : ((walletSpending version h (Ledger.pathNodes h.note index) amount b).statement >>=
        fun st => pure (state st) : Action WithdrawalStatement).run.eval o =
          .ok (state (walletStatement version h (Ledger.pathNodes h.note index) amount b)) := by
      rw [eval_bind_ok (eval_walletStatement _ _ _ _ _ ho)]
      rfl
    have hproved : statement? .withdrawal
        ⟨(spending h (Ledger.pathNodes h.note index) amount b).witness, commitment⟩ =
      (spend (spending h (Ledger.pathNodes h.note index) amount b).witness
        (provedBalance? .withdrawal h.balance amount)).map state := rfl
    have hcertify := eval_certify_spending ho rfl hinjective hproved hstated
    refine prepares_certify hcertify ?_
    simp only [Ledger.checkedCall, if_neg (fee_le_of_check hcheck)]
    exact if_pos rfl

/-! ## Movable holdings -/

/-- What is said if the prover finds no new balance after a withdrawal. -/
def unprovable : Failure :=
  .whileProving .withdrawal (.prover (.backend "new balance is out of range"))

/-- The wallet itself lets an amount pass that the balance covers, and that covers the fee. -/
theorem check_eq_ok {fee : UInt256} (hfee : fee ≤ amount)
    (hb : Movement.withdrawal.balanceAfter? h.balance amount = some b) :
    Withdrawal.check (.opened h) amount fee = .ok () := by
  have hcovered := UInt256.sub?_eq_some_iff.1 hb
  have hbalance : ¬ (Account.opened h).balance < amount := by
    rw [UInt256.lt_iff]
    show ¬ h.balance.toNat < _
    omega
  have hamount : ¬ amount < fee := by
    rw [UInt256.lt_iff]
    exact Nat.not_lt.2 hfee
  rw [Withdrawal.check, if_neg hbalance, if_neg hamount]

/-- The note of the holding belongs to it and is on the ledger that answers, where the holding says, and
`amount` moves the holding to the balance `b`. -/
structure Movable (o : Oracle surroundings) (version : ContractVersion) (m : Movement) (h : Holding)
    (amount b : UInt256) : Prop where
  prover : ∀ q, o (.prover q) = simulated q
  noteVersion_eq : version.noteVersion = noteVersion
  sound : Account.Sound simulated version (.opened h)
  path : ∃ index, h.noteIndex = some index ∧ o (.contract (.path index)) =
    .ok (Ledger.pathNodes h.note index ++ [merkleRoot (Ledger.pathNodes h.note index)])
  nonce_ne : h.nonce ≠ Note.maxNonce
  balance_eq : m.balanceAfter? h.balance amount = some b

namespace Movable

theorem shown (hm : Movable o version m h amount b) : Shown o h := by
  refine ⟨hm.prover, hm.path, ?_⟩
  rcases hm.sound with hopen | ⟨h0, -⟩
  · cases hopen
  · exact h0

/-- Where the prover has a new balance, it makes the note that the wallet has computed, although it
computes with residues. -/
theorem spendable_eq (hm : Movable o version m h amount b) (impossible : Failure) :
    spendable version m (.opened h) amount impossible =
      match provedBalance? m h.balance amount with
      | none => .error (.whileProving m (.prover (.backend "new balance is out of range")))
      | some _ => .ok () := by
  have hspent : h.note = note h.id (secrets h.id (h.nonce - 1)) (.ofUInt256 h.balance) := by
    rcases hm.sound with hopen | ⟨-, note, hnote, his⟩
    · cases hopen
    · obtain rfl := Option.some.inj hnote
      exact (isNote_simulated hm.noteVersion_eq).1 his
  simp only [spendable, show m.balanceAfter? (Account.opened h).balance amount = some b from hm.balance_eq,
    show ¬ (Account.opened h).nonce = Note.maxNonce from hm.nonce_ne, if_false, provable]
  cases hleft : provedBalance? m h.balance amount with
  | none => rfl
  | some left =>
    have hcreated : note h.id (secrets h.id h.nonce) (.ofUInt256 left) =
        walletNote version h.id h.nonce b := by
      rw [ofUInt256_provedBalance hm.balance_eq hleft, walletNote_eq hm.noteVersion_eq]
    simp only [if_pos hspent, if_pos hcreated]

theorem deposit (expected : ContractVersion) (hm : Movable o version .deposit h amount b) :
    ∃ c, (Deposit.prepare version (.opened h) amount expected).run.eval o = .ok c ∧
      Proper amount () expected c := by
  have hprepares := prepares_deposit (a := .opened h) version expected amount hm.prover
    fun h' he => by cases he; exact hm.shown
  rw [hm.spendable_eq] at hprepares
  cases hleft : provedBalance? .deposit h.balance amount with
  | none => cases (provedBalance?_eq_none_iff.1 hleft).1
  | some left =>
    rw [hleft] at hprepares
    exact hprepares.made

/-- A withdrawal of an amount that the balance covers is prepared if the prover has a new balance, and
otherwise it fails with what the prover says. -/
theorem withdrawal (expected : ContractVersion)
    (hm : Movable o version .withdrawal h amount b) {payout : Payout} (hfee : payout.fee ≤ amount) :
    (amount.toNat % Scalar.modulus ≤ h.balance.toNat % Scalar.modulus →
      ∃ c, (Withdrawal.prepare version (.opened h) amount payout expected).run.eval o = .ok c ∧
        Proper amount payout expected c) ∧
    (h.balance.toNat % Scalar.modulus < amount.toNat % Scalar.modulus →
      (Withdrawal.prepare version (.opened h) amount payout expected).run.eval o =
        .error unprovable) := by
  have hprepares := prepares_withdrawal (a := .opened h) version expected amount payout hm.prover
    fun h' he => by cases he; exact hm.shown
  rw [withdrawable, check_eq_ok hfee hm.balance_eq] at hprepares
  change Prepares _ _ _ (spendable _ _ _ _ _) _ at hprepares
  rw [hm.spendable_eq] at hprepares
  constructor
  · intro hle
    cases hleft : provedBalance? .withdrawal h.balance amount with
    | none =>
      have hlt := (provedBalance?_eq_none_iff.1 hleft).2
      omega
    | some left =>
      rw [hleft] at hprepares
      exact hprepares.made
  · intro hlt
    rw [provedBalance?_eq_none_iff.2 ⟨rfl, hlt⟩] at hprepares
    exact hprepares.failed

end Movable

end ShieldedWallet.Simulation
