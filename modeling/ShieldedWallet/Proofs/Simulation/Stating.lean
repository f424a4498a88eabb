import ShieldedWallet.Proofs.History.Selective
import ShieldedWallet.Proofs.Simulation.Binding

/-!
# The wallet and the prover state the same

The wallet computes a statement from the account and hashes the new balance after reducing it. The
prover recomputes the statement from the witness and adds or subtracts what has been reduced before.
Whatever the account says of itself, the two never differ, so a preparation fails for other reasons
only, and what it makes is a call that the ledger encodes.
-/

namespace ShieldedWallet

/-- The wallet and the prover do not agree on a statement or its proof. -/
def Failure.IsDisagreement : Failure → Prop
  | .statementMismatch _ | .proofRejected _ => True
  | _ => False

theorem Failure.not_isDisagreement_whileProving (m : Movement) (cause : ProverFailure) :
    ¬ (Failure.whileProving m (.prover cause)).IsDisagreement := id

variable {version expected : ContractVersion} {m : Movement} {a : Account} {amount : UInt256}
  {t : Trace}

/-! ## Actions that fail for other reasons -/

namespace Action

variable {α β ε : Type}

/-- Whatever is answered, the action fails with no disagreement. -/
def Agrees (x : Action α) : Prop := ∀ t e, x.run.Yields t (.error e) → ¬ e.IsDisagreement

theorem agrees_pure (a : α) : Agrees (pure a) := by
  intro t e h
  cases (yields_pure_iff.1 h).2

theorem agrees_throw {e : Failure} (he : ¬ e.IsDisagreement) : Agrees (throw e : Action α) := by
  intro t e' h
  cases (yields_throw_iff.1 h).2
  exact he

theorem agrees_liftM {x : Except Failure α} (hx : ∀ e, x = .error e → ¬ e.IsDisagreement) :
    Agrees (liftM x : Action α) := by
  intro t e h
  exact hx e (yields_liftM_iff.1 h).2.symm

theorem agrees_ofProgram {f : ε → Failure} (hf : ∀ cause, ¬ (f cause).IsDisagreement)
    (p : Program surroundings (Except ε α)) : Agrees (ofProgram f p) := by
  intro t e h
  obtain ⟨r, -, hr⟩ := yields_ofProgram_iff.1 h
  cases r with
  | ok a => cases hr
  | error cause =>
    cases hr
    exact hf cause

theorem agrees_prover (q : ProverQuery) : Agrees (prover q) := agrees_ofProgram (fun _ => id) _

theorem Agrees.bind {x : Action α} {f : α → Action β} (hx : x.Agrees) (hf : ∀ a, (f a).Agrees) :
    Agrees (x >>= f) := by
  intro t e h
  rcases yields_bind h with ⟨e', h', he⟩ | ⟨t₁, t₂, a, rfl, -, h₂⟩
  · cases he
    exact hx t e h'
  · exact hf a t₂ e h₂

end Action

open ShieldedWallet.Action

theorem Note.agrees_next? (version : ContractVersion) (m : Movement) (a : Account)
    (amount : UInt256) : (Note.next? version m a amount).Agrees := by
  intro t e h
  rcases Note.yields_next?_error h with ⟨q, cause, -, rfl⟩ | ⟨-, rfl⟩ <;> exact id

theorem Note.agrees_onChainPath (a : Account) : (Note.onChainPath a).Agrees := by
  unfold Note.onChainPath
  split
  · exact agrees_throw id
  · split
    · exact agrees_throw id
    · refine (agrees_ofProgram (fun _ => id) _).bind fun path => ?_
      split
      · exact agrees_pure _
      · exact agrees_throw id

theorem Note.agrees_splitPath (path : List Scalar) : (Note.splitPath path).Agrees := by
  refine (agrees_prover _).bind fun height => (agrees_prover _).bind fun arity => ?_
  by_cases hlen : path.length ≠ height * arity + 1
  · rw [if_pos hlen]
    cases path.getLast? with
    | none => exact (agrees_throw id).bind fun _ => agrees_throw id
    | some root => exact (agrees_throw id).bind fun _ => agrees_pure _
  · rw [if_neg hlen]
    cases path.getLast? with
    | none => exact agrees_throw id
    | some root => exact agrees_pure _

theorem Holding.agrees_noteNonce (h : Holding) : (liftM h.noteNonce : Action UInt64).Agrees := by
  refine agrees_liftM fun e he => ?_
  unfold noteNonce at he
  split at he
  · cases he
  · cases he
    exact not_false

theorem Spending.agrees_gather (version : ContractVersion) (m : Movement) (a : Account)
    (amount : UInt256) {impossible : Failure} (himpossible : ¬ impossible.IsDisagreement) :
    (gather version m a amount impossible).Agrees := by
  refine (Note.agrees_next? version m a amount).bind fun next => ?_
  cases next with
  | none => exact agrees_throw himpossible
  | some next =>
    refine (Note.agrees_onChainPath a).bind fun r => (Note.agrees_splitPath _).bind fun p => ?_
    refine r.1.agrees_noteNonce.bind fun nonce => ?_
    exact (agrees_prover _).bind fun spent => (agrees_prover _).bind fun created => agrees_pure _

theorem Spending.agrees_statement (s : Spending) : s.statement.Agrees :=
  (agrees_prover _).bind fun _ => agrees_pure _

theorem Opening.agrees_statement (version : ContractVersion) (a : Account) (amount : UInt256) :
    (statement version a amount).Agrees := by
  refine (Note.agrees_next? version .opening a amount).bind fun next => ?_
  split
  · exact agrees_throw id
  · exact (agrees_prover _).bind fun _ => agrees_pure _

theorem Withdrawal.agrees_check (a : Account) (amount fee : UInt256) :
    (liftM (check a amount fee) : Action Unit).Agrees := by
  refine agrees_liftM fun e he => ?_
  unfold check at he
  split at he
  · cases he
    exact id
  · split at he
    · cases he
      exact id
    · cases he

/-! ## What is gathered -/

/-- The contract hands out paths as the ledger makes them: a leaf, nodes beside it, and their root. -/
def Trace.ShowsPaths (t : Trace) : Prop :=
  ∀ index path, (⟨.contract (.path index), .ok path⟩ : Exchange surroundings) ∈ t →
    ∃ leaf, path = Simulation.Ledger.pathNodes leaf index ++
      [Simulation.merkleRoot (Simulation.Ledger.pathNodes leaf index)]

theorem Trace.ShowsPaths.within {t' : Trace} (h : t.ShowsPaths) (ht : t' <:+: t) : t'.ShowsPaths :=
  fun index path hx => h index path (ht.subset hx)

/-- A path that is used begins with the note. -/
theorem Note.head_of_yields_onChainPath {h : Holding} {path : List Scalar}
    (hp : (onChainPath a).run.Yields t (.ok (h, path))) : path.head? = some h.note := by
  cases a with
  | unopened id => simp [onChainPath] at hp
  | opened h' =>
    simp only [onChainPath] at hp
    cases hi : h'.noteIndex with
    | none => simp [hi] at hp
    | some index =>
      rw [hi] at hp
      obtain ⟨t₁, t₂, path', rfl, -, h₂⟩ := yields_bind_ok hp
      split at h₂
      case isTrue hhead =>
        cases (yields_pure_iff.1 h₂).2
        exact hhead
      case isFalse => simp at h₂

theorem Note.bytes_of_yields_splitPath {path : List Scalar} {bytes : Bytes} {root : Scalar}
    (h : (splitPath path).run.Yields t (.ok (bytes, root))) : bytes = pathBytes path.dropLast := by
  obtain ⟨t₁, t₁', height, rfl, -, h₁⟩ := yields_bind_ok h
  obtain ⟨t₂, t₂', arity, rfl, -, h₂⟩ := yields_bind_ok h₁
  by_cases hlen : path.length ≠ height * arity + 1
  · rw [if_pos hlen] at h₂
    obtain ⟨_, _, _, _, h₃, _⟩ := yields_bind_ok h₂
    simp at h₃
  · rw [if_neg hlen] at h₂
    cases hlast : path.getLast? with
    | none => simp [hlast] at h₂
    | some root' =>
      rw [hlast] at h₂
      cases (yields_pure_iff.1 h₂).2
      rfl

namespace Simulation

/-- What is gathered belongs to the holding, and to a path that begins with its note. -/
theorem yields_walletSpending {impossible : Failure} {s : Spending}
    (h : (Spending.gather version m a amount impossible).run.Yields t (.ok s))
    (ht : t.AnsweredBy simulated) (hpaths : t.ShowsPaths) :
    ∃ holding b index, a = .opened holding ∧ m.balanceAfter? holding.balance amount = some b ∧
      holding.nonce ≠ Note.maxNonce ∧
      s = walletSpending version holding (Ledger.pathNodes holding.note index) amount b := by
  obtain ⟨t₁, t₁', next, rfl, h₁, h₂⟩ := yields_bind_ok h
  cases next with
  | none => simp at h₂
  | some next =>
    obtain ⟨hmax, b, note, hb, rfl, hnote⟩ := Note.yields_next? h₁
    obtain ⟨t₂, t₂', ⟨holding, raw⟩, rfl, hpath, h₃⟩ := yields_bind_ok h₂
    obtain ⟨t₃, t₃', ⟨path, root⟩, rfl, hroot, h₄⟩ := yields_bind_ok h₃
    obtain ⟨t₄, t₄', nonce, rfl, hnonce, h₅⟩ := yields_bind_ok h₄
    obtain ⟨t₅, t₅', spent, rfl, hspent, h₆⟩ := yields_bind_ok h₅
    obtain ⟨t₆, t₆', created, rfl, hcreated, h₇⟩ := yields_bind_ok h₆
    obtain ⟨rfl, hs⟩ := yields_pure_iff.1 h₇
    cases hs
    obtain ⟨-, rfl⟩ := Holding.yields_noteNonce hnonce
    obtain rfl := yields_prover_ok_iff.1 hspent
    obtain rfl := yields_prover_ok_iff.1 hcreated
    obtain ⟨rfl, index, hmem⟩ := Note.yields_onChainPath hpath
    have hspent' : secrets holding.id (holding.nonce - 1) = spent :=
      Except.ok.inj ht.right.right.right.right.left.eq
    have hcreated' : secrets holding.id holding.nonce = created :=
      Except.ok.inj ht.right.right.right.right.right.left.eq
    -- the path is the one of a leaf, and the leaf is the note
    obtain ⟨leaf, rfl⟩ := hpaths index raw (by simp [hmem])
    have hhead := Note.head_of_yields_onChainPath hpath
    rw [Ledger.pathNodes, List.cons_append, List.head?_cons, Option.some.injEq] at hhead
    subst hhead
    have hbytes := Note.bytes_of_yields_splitPath hroot
    have hlast := Note.yields_splitPath hroot
    rw [List.dropLast_concat] at hbytes
    rw [List.getLast?_concat, Option.some.injEq] at hlast
    refine ⟨holding, b, index, rfl, hb, hmax, ?_⟩
    have hcreatedNote : note = walletNote version holding.id holding.nonce b :=
      isNote_iff.1 (hnote simulated ht.left)
    subst hspent' hcreated' hbytes hlast hcreatedNote
    rfl

theorem yields_walletStatement {holding : Holding} {nodes : List Scalar} {b : UInt256}
    {stated : SpendStatement}
    (h : (walletSpending version holding nodes amount b).statement.run.Yields t (.ok stated))
    (ht : t.AnsweredBy simulated) : stated = walletStatement version holding nodes amount b := by
  obtain ⟨hroot, hnote, hhash⟩ := Spending.yields_statement h ht
  have hvalue := Spending.yields_statement_value h
  have hnullifier := Except.ok.inj (hhash.symm.trans (simulated_hash_one _))
  obtain ⟨root, key, note, value⟩ := stated
  subst hroot hnote hvalue hnullifier
  rfl

theorem witness_walletSpending (version : ContractVersion) (holding : Holding) (nodes : List Scalar)
    (amount b : UInt256) : (walletSpending version holding nodes amount b).witness =
      (spending holding nodes amount b).witness := by
  simp only [walletSpending]

/-- If the prover makes a statement of what was gathered, it is the one that the wallet makes. -/
theorem proved_eq_walletStatement {holding : Holding} {nodes : List Scalar} {b : UInt256}
    {proved : SpendStatement} (hv : version.noteVersion = noteVersion)
    (hnodes : nodes.head? = some holding.note) (hb : m.balanceAfter? holding.balance amount = some b)
    (h : spend (walletSpending version holding nodes amount b).witness
      (provedBalance? m holding.balance amount) = .ok proved) :
    proved = walletStatement version holding nodes amount b := by
  rw [witness_walletSpending] at h
  cases hleft : provedBalance? m holding.balance amount with
  | none =>
    rw [hleft] at h
    cases h
  | some left =>
    rw [hleft, spend_spending hnodes] at h
    split at h
    · rw [← Except.ok.inj h, walletStatement, walletNote_eq hv, ofUInt256_provedBalance hb hleft]
    · cases h

theorem proved_eq_withdrawalStatement {holding : Holding} {nodes : List Scalar} {b : UInt256}
    {commitment : Scalar} {proved : WithdrawalStatement} (hv : version.noteVersion = noteVersion)
    (hnodes : nodes.head? = some holding.note)
    (hb : Movement.withdrawal.balanceAfter? holding.balance amount = some b)
    (h : statement? .withdrawal ⟨(walletSpending version holding nodes amount b).witness, commitment⟩ =
      .ok proved) : proved = ⟨walletStatement version holding nodes amount b, commitment⟩ := by
  have hmap : (spend (walletSpending version holding nodes amount b).witness
      (provedBalance? .withdrawal holding.balance amount)).map
        (fun st => (⟨st, commitment⟩ : WithdrawalStatement)) = .ok proved := h
  cases hspend : spend (walletSpending version holding nodes amount b).witness
      (provedBalance? .withdrawal holding.balance amount) with
  | error cause =>
    rw [hspend] at hmap
    cases hmap
  | ok spent =>
    rw [hspend] at hmap
    rw [← Except.ok.inj hmap, proved_eq_walletStatement hv hnodes hb hspend]

/-! ## Preparations -/

/-- A preparation fails for other reasons, or makes a call of what the wallet and a prover that does not
refuse agree on. -/
inductive States (refusing : Bool) (version : ContractVersion) (a : Account) (amount : UInt256)
    (terms : Terms m) (expected : ContractVersion) : Except Failure (Calldata m) → Prop where
  | fails {e : Failure} (he : ¬ e.IsDisagreement) :
      States refusing version a amount terms expected (.error e)
  | makes {p : Calldata m} {b : UInt256} (hrefusing : refusing = false)
      (hproper : Proper amount terms expected p) (hb : m.balanceAfter? a.balance amount = some b)
      (hn : a.nonce ≠ Note.maxNonce) (hnote : p.call.note = walletNote version a.id a.nonce b) :
      States refusing version a amount terms expected (.ok p)

/-- What is stated is what the prover proves, and a call of it is one that the ledger encodes. -/
structure Stated (version : ContractVersion) (a : Account) (amount : UInt256) (terms : Terms m)
    (expected : ContractVersion) (w : Witness m) (stated : Statement m) : Prop where
  proved : ∀ proved, statement? m w = .ok proved → proved = stated
  checked : Ledger.checkedCall expected m ⟨stated, proof m stated, amount, terms⟩ =
    .ok ⟨stated, proof m stated, amount, terms⟩
  note : a.nonce ≠ Note.maxNonce ∧ ∃ b, m.balanceAfter? a.balance amount = some b ∧
    Call.note (⟨stated, proof m stated, amount, terms⟩ : Call m) = walletNote version a.id a.nonce b

/-- A prover that refuses certifies nothing. -/
theorem certify_refused {w : Witness m} {statement : Action (Statement m)}
    {r : Except Failure (Statement m × Bytes)}
    (h : (Calldata.certify m w statement).run.Yields t r) (ht : t.AnsweredBy (proverAnswer true)) :
    ∃ cause, r = .error (.whileProving m (.prover cause)) := by
  rcases yields_bind h with ⟨e, he, rfl⟩ | ⟨t₁, t₂, proved, rfl, hproved, -⟩
  · obtain ⟨r', -, hr⟩ := yields_ofProgram_iff.1 he
    cases r' with
    | ok proved => cases hr
    | error cause =>
      cases hr
      exact ⟨cause, rfl⟩
  · obtain rfl := Query.yields_program_iff.1 (yields_ofProgram_ok_iff.1 hproved)
    have hrefused : proverAnswer true (.prove m w) = .ok proved := ht.left.eq
    cases hrefused

/-- What the prover and the wallet agree on is certified. -/
theorem agrees_certify {w : Witness m} {statement : Action (Statement m)} {e : Failure}
    (h : (Calldata.certify m w statement).run.Yields t (.error e)) (ht : t.AnsweredBy simulated)
    (hs : statement.Agrees)
    (hstated : ∀ t' stated, t' <:+: t → statement.run.Yields t' (.ok stated) →
      ∀ proved, statement? m w = .ok proved → proved = stated) : ¬ e.IsDisagreement := by
  rcases yields_bind h with ⟨e', he, h'⟩ | ⟨t₁, t₁', ⟨proof', proved⟩, rfl, h₀, h₁⟩
  · obtain ⟨r', -, hr⟩ := yields_ofProgram_iff.1 he
    cases r' with
    | ok proved => cases hr
    | error cause =>
      cases hr
      cases h'
      exact Failure.not_isDisagreement_whileProving m cause
  · obtain rfl := Query.yields_program_iff.1 (yields_ofProgram_ok_iff.1 h₀)
    have hproved := ht.left.eq
    obtain ⟨hproof, hmade⟩ := proved_of_answer hproved
    rcases yields_bind h₁ with ⟨e', he, h'⟩ | ⟨t₂, t₂', stated, rfl, h₂, h₃⟩
    · cases h'
      exact hs _ _ he
    · obtain rfl := hstated t₂ stated ⟨[_], t₂', List.append_assoc ..⟩ h₂ proved hmade
      rw [if_neg (not_not.2 rfl)] at h₃
      rcases yields_bind h₃ with ⟨e', he, h'⟩ | ⟨t₃, t₃', valid, rfl, h₄, h₅⟩
      · cases h'
        exact agrees_prover _ _ _ he
      · obtain rfl := yields_prover_ok_iff.1 h₄
        have hvalid := ht.right.right.left.eq
        have hverified : valid = true := by
          rw [← Except.ok.inj hvalid, hproof]
          exact beq_self_eq_true _
        subst hverified
        cases (yields_pure_iff.1 h₅).2

/-- Certifying what was gathered, and making a call of it. -/
theorem states_certify {refusing : Bool} {terms : Terms m} {w : Witness m}
    {statement : Action (Statement m)} {r : Except Failure (Calldata m)}
    (h : (Calldata.certify m w statement >>= fun r =>
      pure (⟨⟨r.1, r.2, amount, terms⟩, expected⟩ : Calldata m)).run.Yields t r)
    (ht : t.AnsweredBy (proverAnswer refusing)) (hs : statement.Agrees)
    (hstated : refusing = false → ∀ t' stated, t' <:+: t → statement.run.Yields t' (.ok stated) →
      Stated version a amount terms expected w stated) :
    States refusing version a amount terms expected r := by
  rcases yields_bind h with ⟨e, he, rfl⟩ | ⟨t₁, t₂, ⟨stated, proof⟩, rfl, hcertified, hmade⟩
  · cases refusing with
    | true =>
      obtain ⟨cause, hcause⟩ := certify_refused he ht
      cases hcause
      exact .fails (Failure.not_isDisagreement_whileProving m cause)
    | false =>
      exact .fails (agrees_certify he ht hs fun t' stated ht' hy => (hstated rfl t' stated ht' hy).proved)
  · obtain ⟨rfl, rfl⟩ := yields_pure_iff.1 hmade
    cases refusing with
    | true =>
      obtain ⟨cause, hcause⟩ := certify_refused hcertified ht.left
      cases hcause
    | false =>
      obtain ⟨t', hin, hy⟩ := Calldata.yields_certify hcertified
      obtain ⟨-, hchecked, hn, b, hb, hnote⟩ :=
        hstated rfl t' stated (hin.trans (List.prefix_append _ _).isInfix) hy
      obtain rfl := certified_proof hcertified ht.left
      exact .makes rfl ⟨rfl, rfl, rfl, hchecked⟩ hb hn hnote

theorem yields_openingStatement {stated : OpeningStatement}
    (h : (Opening.statement version a amount).run.Yields t (.ok stated)) (ht : t.AnsweredBy simulated) :
    a.nonce ≠ Note.maxNonce ∧
      stated = ⟨walletNote version a.id a.nonce amount, hash [a.id], .ofUInt256 amount⟩ := by
  obtain ⟨hn, hnote, hhash⟩ := Opening.yields_statement h ht
  have hnote' : walletNote version a.id a.nonce amount = stated.note := (isNote_iff.1 hnote).symm
  have hhash' : hash [a.id] = stated.idHash :=
    Except.ok.inj ((simulated_hash_one _).symm.trans hhash)
  have hdeposit : .ofUInt256 amount = stated.deposit := by
    obtain ⟨t₁, t₂, next, rfl, -, h₂⟩ := yields_bind_ok h
    split at h₂
    · simp at h₂
    · obtain ⟨t₃, t₄, idHash, rfl, -, h₃⟩ := yields_bind_ok h₂
      cases (yields_pure_iff.1 h₃).2
      rfl
  refine ⟨hn, ?_⟩
  rw [hnote', hhash', hdeposit]

theorem states_opening {refusing : Bool} {r : Except Failure (Calldata .opening)}
    (hv : version.noteVersion = noteVersion)
    (h : (Opening.prepare version a amount expected).run.Yields t r)
    (ht : t.AnsweredBy (proverAnswer refusing)) :
    States refusing version a amount () expected r := by
  rcases yields_bind h with ⟨e, he, rfl⟩ | ⟨t₁, t₂, created, rfl, hcreated, hcertify⟩
  · exact .fails (agrees_prover _ _ _ he)
  · obtain rfl := yields_prover_ok_iff.1 hcreated
    have hsecrets : secrets a.id a.nonce = created := Except.ok.inj ht.left.eq
    refine states_certify hcertify ht.right (Opening.agrees_statement _ _ _) ?_
    intro hrefusing t' stated hin hy
    subst hrefusing hsecrets
    obtain ⟨hn, rfl⟩ := yields_openingStatement hy (ht.right.within hin)
    refine ⟨fun proved hproved => ?_, if_pos ⟨rfl, rfl⟩, hn, amount, rfl, rfl⟩
    rw [← Except.ok.inj hproved, walletNote_eq hv]

/-- Preparing to spend: what is certified and how it is stated is said for what was gathered from the
path of a note. -/
theorem states_gather {refusing : Bool} {terms : Terms m} {impossible : Failure}
    {witness : Spending → Witness m} {statement : Spending → Action (Statement m)}
    {r : Except Failure (Calldata m)} (himpossible : ¬ impossible.IsDisagreement)
    (h : (Spending.gather version m a amount impossible >>= fun s =>
      Calldata.certify m (witness s) (statement s) >>= fun r =>
        pure (⟨⟨r.1, r.2, amount, terms⟩, expected⟩ : Calldata m)).run.Yields t r)
    (ht : t.AnsweredBy (proverAnswer refusing)) (hpaths : t.ShowsPaths)
    (hagrees : ∀ s, (statement s).Agrees)
    (hstated : ∀ (holding : Holding) (b : UInt256) (index : UInt64) (t' : Trace) (stated : Statement m),
      a = .opened holding →
      m.balanceAfter? holding.balance amount = some b → holding.nonce ≠ Note.maxNonce →
      let s := walletSpending version holding (Ledger.pathNodes holding.note index) amount b
      t'.AnsweredBy simulated → (statement s).run.Yields t' (.ok stated) →
        Stated version a amount terms expected (witness s) stated) :
    States refusing version a amount terms expected r := by
  rcases yields_bind h with ⟨e, he, rfl⟩ | ⟨t₁, t₂, s, rfl, hgather, hcertify⟩
  · exact .fails (Spending.agrees_gather version m a amount himpossible _ _ he)
  · refine states_certify hcertify ht.right (hagrees s) fun hrefusing t' stated hin hy => ?_
    subst hrefusing
    have hpaths₁ : Trace.ShowsPaths t₁ := hpaths.within (List.prefix_append _ _).isInfix
    obtain ⟨holding, b, index, ha, hb, hn, rfl⟩ := yields_walletSpending hgather ht.left hpaths₁
    exact hstated holding b index t' stated ha hb hn (ht.right.within hin) hy

theorem states_deposit {refusing : Bool} {r : Except Failure (Calldata .deposit)}
    (hv : version.noteVersion = noteVersion)
    (h : (Deposit.prepare version a amount expected).run.Yields t r)
    (ht : t.AnsweredBy (proverAnswer refusing)) (hpaths : t.ShowsPaths) :
    States refusing version a amount () expected r := by
  refine states_gather id h ht hpaths Spending.agrees_statement ?_
  rintro holding b index t' stated rfl hb hn s ht' hy
  obtain rfl := yields_walletStatement hy ht'
  refine ⟨fun proved hproved => ?_, if_pos ⟨rfl, rfl⟩, hn, b, hb, rfl⟩
  exact proved_eq_walletStatement hv rfl hb hproved

theorem states_withdrawal {refusing : Bool} {payout : Payout}
    {r : Except Failure (Calldata .withdrawal)} (hv : version.noteVersion = noteVersion)
    (h : (Withdrawal.prepare version a amount payout expected).run.Yields t r)
    (ht : t.AnsweredBy (proverAnswer refusing)) (hpaths : t.ShowsPaths) :
    States refusing version a amount payout expected r := by
  rcases yields_bind h with ⟨e, he, rfl⟩ | ⟨t₁, t₂, u, rfl, hcheck, hgather⟩
  · exact .fails (Withdrawal.agrees_check _ _ _ _ _ he)
  · obtain ⟨rfl, hchecked⟩ := yields_liftM_iff.1 hcheck
    refine states_gather id hgather ht.right (hpaths.within List.infix_rfl)
      (fun s => s.agrees_statement.bind fun st => agrees_pure _) ?_
    rintro holding b index t' stated rfl hb hn s ht' hy
    obtain ⟨t₃, t₄, st, rfl, hst, hmade⟩ := yields_bind_ok hy
    obtain ⟨rfl, hstated⟩ := yields_pure_iff.1 hmade
    cases hstated
    obtain rfl := yields_walletStatement hst ht'.left
    refine ⟨fun proved hproved => ?_, ?_, hn, b, hb, rfl⟩
    · exact proved_eq_withdrawalStatement hv rfl hb hproved
    · have hfee := fee_le_of_check hchecked.symm
      simp only [Ledger.checkedCall, if_neg hfee]
      exact if_pos rfl

/-! ## Worlds -/

/-- A path that the ledger hands out is made of a leaf. -/
theorem Ledger.path_of_answer {l : Ledger} {index : UInt64} {path : List Scalar}
    (h : (l.answer (.path index)).1 = .ok path) :
    ∃ leaf, path = pathNodes leaf index ++ [merkleRoot (pathNodes leaf index)] := by
  simp only [answer, path?] at h
  cases hleaf : l.leaves[index.toNat]? with
  | none => simp [hleaf] at h
  | some leaf =>
    simp only [hleaf, Option.map_some, Except.ok.injEq] at h
    exact ⟨leaf, h.symm⟩

namespace World

variable {c storage : Nat} {w : World}

theorem Direct.answeredBy_trace {α : Type} (hw : w.Direct) (p : Program surroundings α) :
    Trace.AnsweredBy (proverAnswer w.prover.refusing) (p.trace (World.answer c storage) w) := by
  intro q r hx
  obtain ⟨w', ⟨hw', hrefusing⟩, ha⟩ := Program.trace_answered
    (P := fun w' => w'.Direct ∧ w'.prover.refusing = w.prover.refusing)
    (fun q w' h => ⟨h.1.answer q, (h.1.unchanged_answer q).2.trans h.2⟩) ⟨hw, rfl⟩ _ hx
  rw [hw'.answer_prover, hrefusing] at ha
  exact ha

theorem Direct.showsPaths_trace {α : Type} (hw : w.Direct) (p : Program surroundings α) :
    Trace.ShowsPaths (p.trace (World.answer c storage) w) := by
  intro index path hx
  obtain ⟨w', hw', ha⟩ := Program.trace_answered (fun q w' (h : w'.Direct) => h.answer q) hw _ hx
  rw [hw'.answer_contract] at ha
  exact Ledger.path_of_answer ha.symm

/-- The preparation does not fail because the wallet and the prover disagree. If it makes a call, then
the account gets the note of the call by the movement, and every ledger with the expected version
encodes the call. -/
structure Concurs (c storage : Nat) (version : ContractVersion) (a : Account) (amount : UInt256)
    (expected : ContractVersion) (x : Action (Calldata m)) (w : World) : Prop where
  agrees : ∀ m', (x.run.run (World.answer c storage) w).1 ≠ .error (.statementMismatch m') ∧
    (x.run.run (World.answer c storage) w).1 ≠ .error (.proofRejected m')
  note : ∀ p, (x.run.run (World.answer c storage) w).1 = .ok p →
    ∃ next w', (Note.next? version m a amount).run.run (World.answer c storage) w =
      (.ok (some next), w') ∧ next.note? = some p.call.note
  encoded : ∀ p, (x.run.run (World.answer c storage) w).1 = .ok p →
    ∀ (l : Ledger) (sender : Address), l.version = expected →
      ∃ data, (l.answer (.encode m p.version sender p.call)).1 = .ok data

theorem Direct.concurs {x : Action (Calldata m)} {terms : Terms m} (hw : w.Direct)
    (h : States w.prover.refusing version a amount terms expected
      (x.run.run (World.answer c storage) w).1) : Concurs c storage version a amount expected x w := by
  generalize hr : (x.run.run (World.answer c storage) w).1 = r at h
  cases h with
  | fails he =>
    refine ⟨fun m' => ?_, fun p hp => ?_, fun p hp => ?_⟩
    · rw [hr]
      exact ⟨fun h => he (Except.error.inj h ▸ trivial), fun h => he (Except.error.inj h ▸ trivial)⟩
    · rw [hr] at hp
      cases hp
    · rw [hr] at hp
      cases hp
  | @makes p b hrefusing hproper hb hn hnote =>
    refine ⟨fun m' => ?_, fun p' hp => ?_, fun p' hp l sender hl => ?_⟩
    · rw [hr]
      constructor
      · intro h
        cases h
      · intro h
        cases h
    · obtain rfl := Except.ok.inj (hr.symm.trans hp)
      have hplain : w.Plain := ⟨hw.toUndisturbed, hw.link, hrefusing⟩
      have hreading : (Note.next? version m a amount).run.Confined Query.IsReading :=
        Note.confined_next? fun _ => trivial
      obtain ⟨w', -, hrun⟩ := hplain.run_reading c storage hreading
      rw [eval_note hplain.oracle_prover hb hn (isNote_iff.2 rfl)] at hrun
      refine ⟨_, w', hrun, ?_⟩
      rw [hnote]
      rfl
    · obtain rfl := Except.ok.inj (hr.symm.trans hp)
      have hversion : p.version = l.version := hproper.version_eq.trans hl.symm
      have hchecked : Ledger.checkedCall p.version m p.call = .ok p.call :=
        hproper.version_eq ▸ hproper.checked
      exact ⟨_, congrArg Prod.fst (Ledger.answer_encode hversion sender hchecked)⟩

/-- The wallet and the prover compute the same, whatever the account says of itself and however large
the amount is. -/
theorem wallet_and_prover_agree (hw : w.Direct) (htop : version.bytes[0]? = some 0) (a : Account)
    (amount : UInt256) (payout : Payout) (expected : ContractVersion) :
    Concurs c storage version a amount expected (Opening.prepare version a amount expected) w ∧
      Concurs c storage version a amount expected (Deposit.prepare version a amount expected) w ∧
      Concurs c storage version a amount expected
        (Withdrawal.prepare version a amount payout expected) w := by
  have hv : version.noteVersion = noteVersion := by
    obtain ⟨hlt, hbyte⟩ := Vector.getElem?_eq_some_iff.1 htop
    rw [ContractVersion.noteVersion, hbyte]
    rfl
  have hpaths : ∀ {α : Type} (p : Program surroundings α),
      Trace.ShowsPaths (p.trace (World.answer c storage) w) := hw.showsPaths_trace
  have hanswered : ∀ {α : Type} (p : Program surroundings α), Trace.AnsweredBy
      (proverAnswer w.prover.refusing) (p.trace (World.answer c storage) w) := hw.answeredBy_trace
  have hyields : ∀ {α : Type} (p : Program surroundings α),
      p.Yields (p.trace (World.answer c storage) w) (p.run (World.answer c storage) w).1 :=
    fun p => Program.yields_trace (World.answer c storage) p w
  refine ⟨?_, ?_, ?_⟩
  · exact hw.concurs (states_opening hv (hyields _) (hanswered _))
  · exact hw.concurs (states_deposit hv (hyields _) (hanswered _) (hpaths _))
  · exact hw.concurs (states_withdrawal hv (hyields _) (hanswered _) (hpaths _))

/-- The account 7, opened with 10, withdraws 1. -/
theorem wallet_and_prover_agree7 :
    let payout : Payout := ⟨relayerAddress, relayerAddress, 1⟩
    let x := Withdrawal.prepare .supported (.opened holding7) 1 payout .supported
    openedWorld7.Direct ∧ ContractVersion.supported.bytes[0]? = some 0 ∧
      (∃ p, (x.run.run (World.answer 0 0) openedWorld7).1 = .ok p) ∧
      Concurs 0 0 .supported (.opened holding7) 1 .supported x openedWorld7 := by
  intro payout x
  have hreading : x.run.Confined Query.IsReading :=
    Withdrawal.confined_prepare (fun _ => trivial) fun _ => trivial
  obtain ⟨w', -, hrun⟩ := plain7.run_reading 0 0 hreading
  have hfee : payout.fee ≤ 1 := by decide
  obtain ⟨p, heval, -⟩ := ((movable7 0 0).withdrawal .supported hfee).1 (by decide)
  rw [heval] at hrun
  have htop : ContractVersion.supported.bytes[0]? = some 0 := rfl
  exact ⟨plain7.direct, htop, ⟨p, congrArg Prod.fst hrun⟩,
    (wallet_and_prover_agree plain7.direct htop (.opened holding7) 1 payout .supported).2.2⟩

end World

end Simulation

end ShieldedWallet
