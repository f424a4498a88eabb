import ShieldedWallet.Payment.Opening
import ShieldedWallet.Payment.Spending
import ShieldedWallet.Proofs.History.Pass

/-!
# What a prepared call says

A call prepared from an account registers the search hash of that account, and its note is the one
that the account creates by the movement. So the event of the call will be found by a step from the
account. The proof plays no part in this: a call says what its wallet has computed, and what was
proved is only compared with it.
-/

namespace ShieldedWallet

variable {f : Oracle proving} {version expected : ContractVersion} {a : Account} {m : Movement}
  {amount : UInt256} {t : Trace}

/-- The contract has handed out a path that ends in the root. -/
def Trace.Shows (t : Trace) (root : Scalar) : Prop :=
  ∃ i path, (⟨.contract (.path i), .ok path⟩ : Exchange surroundings) ∈ t ∧ path.getLast? = some root

theorem Trace.Shows.mono {t' : Trace} {root : Scalar} (h : t.Shows root) (ht : t ⊆ t') :
    t'.Shows root := by
  obtain ⟨i, path, hmem, hlast⟩ := h
  exact ⟨i, path, ht hmem, hlast⟩

namespace Call

/-- The hash that a call registers. -/
def key : {m : Movement} → Call m → Scalar
  | .opening, c => c.statement.idHash
  | .deposit, c => c.statement.nullifierHash
  | .withdrawal, c => c.statement.nullifierHash

/-- The note that a call appends. -/
def note : {m : Movement} → Call m → Scalar
  | .opening, c => c.statement.note
  | .deposit, c => c.statement.note
  | .withdrawal, c => c.statement.note

/-- The root that a call shows, if it spends a note. -/
def root? : {m : Movement} → Call m → Option Scalar
  | .opening, _ => none
  | .deposit, c => some c.statement.root
  | .withdrawal, c => some c.statement.root

/-- For the prover `f`, the call continues the account `a`: its note is the next one of the account
after the movement, and it registers the search hash of the account. An opening registers the search
hash that the account has, or had, before its first note. -/
structure Continues (f : Oracle proving) (version : ContractVersion) (a : Account) (c : Call m) :
    Prop where
  nonce_ne : a.nonce ≠ Note.maxNonce
  note : ∃ balance, m.balanceAfter? a.balance c.amount = some balance ∧
    Note.IsNote f version a.id a.nonce balance c.note
  key : History.IsSearchHash f (if m = .opening then .unopened a.id else a) c.key
  isUnopened_eq : m ≠ .opening → a.isUnopened = false

/-- Only the amount, the note and the registered hash matter. -/
theorem Continues.congr {c c' : Call m} (h : c.Continues f version a) (ha : c'.amount = c.amount)
    (hn : c'.note = c.note) (hk : c'.key = c.key) : c'.Continues f version a where
  nonce_ne := h.nonce_ne
  note := by rw [ha, hn]; exact h.note
  key := by rw [hk]; exact h.key
  isUnopened_eq := h.isUnopened_eq

/-- The movement of a call applies to the account that it continues, unless it opens one again. -/
theorem Continues.appliesTo {c : Call m} (h : c.Continues f version a)
    (ha : m = .opening → a.isUnopened = true) : m.appliesTo a = true := by
  cases m with
  | opening => simpa [Movement.appliesTo] using ha rfl
  | deposit => simp [Movement.appliesTo, h.isUnopened_eq (by simp)]
  | withdrawal => simp [Movement.appliesTo, h.isUnopened_eq (by simp)]

end Call

/-- What is certified is what was stated. -/
theorem Calldata.yields_certify {w : Witness m} {statement : Action (Statement m)}
    {stated : Statement m} {proof : Bytes}
    (h : (certify m w statement).run.Yields t (.ok (stated, proof))) :
    ∃ t', t' <:+: t ∧ statement.run.Yields t' (.ok stated) := by
  obtain ⟨t₁, t₁', proved, rfl, -, h₁⟩ := Action.yields_bind_ok h
  obtain ⟨t₂, t₂', stated', rfl, h₂, h₃⟩ := Action.yields_bind_ok h₁
  have hin : t₂ <:+: t₁ ++ (t₂ ++ t₂') := ⟨t₁, t₂', by simp⟩
  suffices hs : stated' = stated by
    rw [hs] at h₂
    exact ⟨t₂, hin, h₂⟩
  by_cases hne : proved.2 ≠ stated'
  · rw [if_pos hne] at h₃
    obtain ⟨_, _, _, _, h₄, _⟩ := Action.yields_bind_ok h₃
    simp at h₄
  · rw [if_neg hne] at h₃
    obtain ⟨t₄, t₄', valid, rfl, -, h₅⟩ := Action.yields_bind_ok h₃
    cases valid with
    | false => simp at h₅
    | true =>
      obtain ⟨-, hr⟩ := Action.yields_pure_iff.1 h₅
      cases hr
      rfl

/-! ## Openings -/

namespace Opening

theorem yields_statement {s : OpeningStatement}
    (h : (statement version a amount).run.Yields t (.ok s)) (ht : t.AnsweredBy f) :
    a.nonce ≠ Note.maxNonce ∧ Note.IsNote f version a.id a.nonce amount s.note ∧
      f (.hash [a.id]) = .ok s.idHash := by
  obtain ⟨t₁, t₁', next, rfl, h₁, h₂⟩ := Action.yields_bind_ok h
  cases next with
  | none => simp at h₂
  | some next =>
    obtain ⟨hmax, balance, note, hbalance, rfl, hnote⟩ := Note.yields_next? h₁
    obtain ⟨t₂, t₂', idHash, rfl, h₃, h₄⟩ := Action.yields_bind_ok h₂
    obtain rfl := Action.yields_prover_ok_iff.1 h₃
    obtain ⟨rfl, hs⟩ := Action.yields_pure_iff.1 h₄
    cases hs
    obtain rfl : amount = balance := Option.some.inj hbalance
    exact ⟨hmax, hnote f ht.left, ht.right.left.eq⟩

theorem yields_prepare {c : Calldata .opening}
    (h : (prepare version a amount expected).run.Yields t (.ok c)) (ht : t.AnsweredBy f) :
    c.call.Continues f version a ∧ ∀ root, c.call.root? = some root → t.Shows root := by
  obtain ⟨t₁, t₁', secrets, rfl, -, h₁⟩ := Action.yields_bind_ok h
  obtain ⟨t₂, t₂', ⟨stated, proof⟩, rfl, h₂, h₃⟩ := Action.yields_bind_ok h₁
  obtain ⟨rfl, hc⟩ := Action.yields_pure_iff.1 h₃
  cases hc
  obtain ⟨t₃, hin, h₄⟩ := Calldata.yields_certify h₂
  obtain ⟨hmax, hnote, hkey⟩ := yields_statement h₄ (ht.right.left.within hin)
  exact ⟨⟨hmax, ⟨amount, rfl, hnote⟩, hkey, fun hm => absurd rfl hm⟩, fun root he => nomatch he⟩

end Opening

/-! ## Deposits and withdrawals -/

namespace Note

/-- Only the holding of an open account has a path. -/
theorem yields_onChainPath {h : Holding} {path : List Scalar}
    (hp : (onChainPath a).run.Yields t (.ok (h, path))) :
    a = .opened h ∧ ∃ i, (⟨.contract (.path i), .ok path⟩ : Exchange surroundings) ∈ t := by
  cases a with
  | unopened id => simp [onChainPath] at hp
  | opened h' =>
    simp only [onChainPath] at hp
    cases hi : h'.noteIndex with
    | none => simp [hi] at hp
    | some index =>
      rw [hi] at hp
      obtain ⟨t₁, t₂, path', rfl, h₁, h₂⟩ := Action.yields_bind_ok hp
      obtain rfl := Query.yields_program_iff.1 (Action.yields_ofProgram_ok_iff.1 h₁)
      split at h₂
      · obtain ⟨rfl, hr⟩ := Action.yields_pure_iff.1 h₂
        cases hr
        exact ⟨rfl, index, List.mem_cons_self⟩
      · simp at h₂

/-- The root is the end of the path. -/
theorem yields_splitPath {path : List Scalar} {bytes : Bytes} {root : Scalar}
    (h : (splitPath path).run.Yields t (.ok (bytes, root))) : path.getLast? = some root := by
  obtain ⟨t₁, t₁', height, rfl, -, h₁⟩ := Action.yields_bind_ok h
  obtain ⟨t₂, t₂', arity, rfl, -, h₂⟩ := Action.yields_bind_ok h₁
  by_cases hlen : path.length ≠ height * arity + 1
  · rw [if_pos hlen] at h₂
    obtain ⟨_, _, _, _, h₃, _⟩ := Action.yields_bind_ok h₂
    simp at h₃
  · rw [if_neg hlen] at h₂
    cases hlast : path.getLast? with
    | none => simp [hlast] at h₂
    | some root' =>
      rw [hlast] at h₂
      cases (Action.yields_pure_iff.1 h₂).2
      rfl

end Note

theorem Holding.yields_noteNonce {h : Holding} {n : UInt64}
    (hn : (liftM h.noteNonce : Action UInt64).run.Yields t (.ok n)) :
    h.nonce ≠ 0 ∧ n = h.nonce - 1 := by
  obtain ⟨-, hn⟩ := Action.yields_liftM_iff.1 hn
  unfold noteNonce noteNonce? at hn
  by_cases h0 : h.nonce = 0
  · simp [h0] at hn
  · exact ⟨h0, by simpa [h0] using hn⟩

namespace Spending

theorem yields_gather {impossible : Failure} {s : Spending}
    (h : (gather version m a amount impossible).run.Yields t (.ok s)) (ht : t.AnsweredBy f) :
    a.nonce ≠ Note.maxNonce ∧ (∃ balance, m.balanceAfter? a.balance amount = some balance ∧
      Note.IsNote f version a.id a.nonce balance s.note) ∧
    (∃ holding, a = .opened holding ∧ holding.nonce ≠ 0 ∧
      f (.secrets holding.id (holding.nonce - 1)) = .ok s.witness.spent) ∧ t.Shows s.root := by
  obtain ⟨t₁, t₁', next, rfl, h₁, h₂⟩ := Action.yields_bind_ok h
  cases next with
  | none => simp at h₂
  | some next =>
    obtain ⟨hmax, balance, note, hbalance, rfl, hnote⟩ := Note.yields_next? h₁
    obtain ⟨t₂, t₂', ⟨holding, raw⟩, rfl, hpath, h₃⟩ := Action.yields_bind_ok h₂
    obtain ⟨t₃, t₃', ⟨path, root⟩, rfl, hroot, h₄⟩ := Action.yields_bind_ok h₃
    obtain ⟨t₄, t₄', nonce, rfl, hnonce, h₅⟩ := Action.yields_bind_ok h₄
    obtain ⟨t₅, t₅', spent, rfl, hspent, h₆⟩ := Action.yields_bind_ok h₅
    obtain ⟨t₆, t₆', created, rfl, -, h₇⟩ := Action.yields_bind_ok h₆
    obtain ⟨rfl, hs⟩ := Action.yields_pure_iff.1 h₇
    cases hs
    obtain ⟨h0, rfl⟩ := Holding.yields_noteNonce hnonce
    obtain rfl := Action.yields_prover_ok_iff.1 hspent
    obtain ⟨hopened, i, hmem⟩ := Note.yields_onChainPath hpath
    have hanswer := ht.right.right.right.right.left.eq
    exact ⟨hmax, ⟨balance, hbalance, hnote f ht.left⟩, ⟨holding, hopened, h0, hanswer⟩, i, raw,
      by simp [hmem], Note.yields_splitPath hroot⟩

theorem yields_statement {s : Spending} {stated : SpendStatement}
    (h : s.statement.run.Yields t (.ok stated)) (ht : t.AnsweredBy f) :
    stated.root = s.root ∧ stated.note = s.note ∧
      f (.hash [s.witness.spent.nullifier]) = .ok stated.nullifierHash := by
  obtain ⟨t₁, t₂, hash, rfl, h₁, h₂⟩ := Action.yields_bind_ok h
  obtain rfl := Action.yields_prover_ok_iff.1 h₁
  obtain ⟨rfl, hs⟩ := Action.yields_pure_iff.1 h₂
  cases hs
  exact ⟨rfl, rfl, ht.left.eq⟩

/-- The value that is gathered and stated is the amount. -/
theorem yields_gather_value {impossible : Failure} {s : Spending}
    (h : (gather version m a amount impossible).run.Yields t (.ok s)) :
    s.witness.value = .ofUInt256 amount := by
  obtain ⟨t₁, t₁', next, rfl, -, h₂⟩ := Action.yields_bind_ok h
  cases next with
  | none => simp at h₂
  | some next =>
    obtain ⟨t₂, t₂', ⟨holding, raw⟩, rfl, -, h₃⟩ := Action.yields_bind_ok h₂
    obtain ⟨t₃, t₃', ⟨path, root⟩, rfl, -, h₄⟩ := Action.yields_bind_ok h₃
    obtain ⟨t₄, t₄', nonce, rfl, -, h₅⟩ := Action.yields_bind_ok h₄
    obtain ⟨t₅, t₅', spent, rfl, -, h₆⟩ := Action.yields_bind_ok h₅
    obtain ⟨t₆, t₆', created, rfl, -, h₇⟩ := Action.yields_bind_ok h₆
    cases (Action.yields_pure_iff.1 h₇).2
    rfl

theorem yields_statement_value {s : Spending} {stated : SpendStatement}
    (h : s.statement.run.Yields t (.ok stated)) : stated.value = s.witness.value := by
  obtain ⟨t₁, t₂, hash, rfl, -, h₂⟩ := Action.yields_bind_ok h
  cases (Action.yields_pure_iff.1 h₂).2
  rfl

/-- A call that spends what was gathered from an account continues the account, and its root is one that
was shown. -/
theorem continues {impossible : Failure} {s : Spending} {stated : SpendStatement} {t' : Trace}
    (h : (gather version m a amount impossible).run.Yields t (.ok s)) (ht : t.AnsweredBy f)
    (h' : s.statement.run.Yields t' (.ok stated)) (ht' : t'.AnsweredBy f) {c : Call m}
    (hm : m ≠ .opening) (hamount : c.amount = amount) (hnote : c.note = stated.note)
    (hkey : c.key = stated.nullifierHash) (hroot : c.root? = some stated.root) :
    c.Continues f version a ∧ ∀ root, c.root? = some root → t.Shows root := by
  obtain ⟨hmax, hbalance, ⟨holding, rfl, h0, hspent⟩, hshows⟩ := yields_gather h ht
  obtain ⟨hr, hn, hh⟩ := yields_statement h' ht'
  refine ⟨⟨hmax, ?_, ?_, fun _ => rfl⟩, fun root he => ?_⟩
  · rw [hamount, hnote, hn]
    exact hbalance
  · rw [if_neg hm, hkey]
    exact ⟨h0, s.witness.spent, hspent, hh⟩
  · obtain rfl : stated.root = root := Option.some.inj (hroot.symm.trans he)
    rwa [hr]

end Spending

theorem Deposit.yields_prepare {c : Calldata .deposit}
    (h : (prepare version a amount expected).run.Yields t (.ok c)) (ht : t.AnsweredBy f) :
    c.call.Continues f version a ∧ ∀ root, c.call.root? = some root → t.Shows root := by
  obtain ⟨t₁, t₁', s, rfl, h₁, h₂⟩ := Action.yields_bind_ok h
  obtain ⟨t₂, t₂', ⟨stated, proof⟩, rfl, h₃, h₄⟩ := Action.yields_bind_ok h₂
  obtain ⟨rfl, hc⟩ := Action.yields_pure_iff.1 h₄
  cases hc
  obtain ⟨t₃, hin, h₅⟩ := Calldata.yields_certify h₃
  obtain ⟨hcontinues, hshows⟩ := Spending.continues h₁ ht.left h₅ (ht.right.left.within hin)
    (c := ⟨stated, proof, amount, ()⟩) (by simp) rfl rfl rfl rfl
  exact ⟨hcontinues, fun root he => (hshows root he).mono (by simp)⟩

theorem Withdrawal.yields_prepare {payout : Payout} {c : Calldata .withdrawal}
    (h : (prepare version a amount payout expected).run.Yields t (.ok c)) (ht : t.AnsweredBy f) :
    c.call.Continues f version a ∧ ∀ root, c.call.root? = some root → t.Shows root := by
  obtain ⟨t₀, t₀', u, rfl, -, h₀⟩ := Action.yields_bind_ok h
  obtain ⟨t₁, t₁', s, rfl, h₁, h₂⟩ := Action.yields_bind_ok h₀
  obtain ⟨t₂, t₂', ⟨stated, proof⟩, rfl, h₃, h₄⟩ := Action.yields_bind_ok h₂
  obtain ⟨rfl, hc⟩ := Action.yields_pure_iff.1 h₄
  cases hc
  obtain ⟨t₃, hin, h₅⟩ := Calldata.yields_certify h₃
  obtain ⟨t₄, t₅, st, rfl, h₆, h₇⟩ := Action.yields_bind_ok h₅
  obtain ⟨rfl, hst⟩ := Action.yields_pure_iff.1 h₇
  cases hst
  have ht' := ht.right.right.left.within hin
  obtain ⟨hcontinues, hshows⟩ := Spending.continues h₁ ht.right.left h₆ ht'.left
    (c := ⟨⟨st, payout.commitment expected⟩, proof, amount, payout⟩) (by simp) rfl rfl rfl rfl
  exact ⟨hcontinues, fun root he => (hshows root he).mono (by simp)⟩

/-! ## What is asked meanwhile -/

section Confined

open ShieldedWallet.Action

variable {K : Query → Prop}

theorem Calldata.confined_certify (hp : ∀ q, K (.prover q)) {w : Witness m}
    {statement : Action (Statement m)} (hs : statement.run.Confined K) :
    (certify m w statement).run.Confined K := by
  refine confined_bind (confined_ofProgram (Query.confined_program (hp _))) fun r => ?_
  refine confined_bind hs fun stated => ?_
  have hrest : (do
      let valid ← prover (.verify m r.1 stated)
      if valid then return (stated, r.1) else throw (.proofRejected m) :
        Action (Statement m × Bytes)).run.Confined K := by
    refine confined_bind (confined_prover (hp _)) fun valid => ?_
    split
    · exact confined_pure _
    · exact confined_throw _
  split
  · exact confined_bind (confined_throw _) fun _ => hrest
  · exact hrest

theorem Opening.confined_prepare (hp : ∀ q, K (.prover q)) :
    (Opening.prepare version a amount expected).run.Confined K := by
  refine confined_bind (confined_prover (hp _)) fun s => ?_
  refine confined_bind (Calldata.confined_certify hp ?_) fun r => confined_pure _
  refine confined_bind (Note.confined_next? hp) fun next => ?_
  split
  · exact confined_throw _
  · exact confined_bind (confined_prover (hp _)) fun h => confined_pure _

theorem Note.confined_onChainPath (hc : ∀ i, K (.contract (.path i))) :
    (Note.onChainPath a).run.Confined K := by
  unfold Note.onChainPath
  split
  · exact confined_throw _
  · split
    · exact confined_throw _
    · refine confined_bind (confined_contractOr (hc _)) fun path => ?_
      split
      · exact confined_pure _
      · exact confined_throw _

theorem Note.confined_splitPath (hp : ∀ q, K (.prover q)) (path : List Scalar) :
    (Note.splitPath path).run.Confined K := by
  refine confined_bind (confined_prover (hp _)) fun height => ?_
  refine confined_bind (confined_prover (hp _)) fun arity => ?_
  dsimp only
  split
  · refine confined_bind (confined_throw _) fun _ => ?_
    split
    · exact confined_throw _
    · exact confined_pure _
  · split
    · exact confined_throw _
    · exact confined_pure _

theorem Spending.confined_gather (hp : ∀ q, K (.prover q)) (hc : ∀ i, K (.contract (.path i)))
    {impossible : Failure} : (gather version m a amount impossible).run.Confined K := by
  refine confined_bind (Note.confined_next? hp) fun next => ?_
  split
  · exact confined_throw _
  · refine confined_bind (Note.confined_onChainPath hc) fun r => ?_
    refine confined_bind (Note.confined_splitPath hp _) fun p => ?_
    refine confined_bind (confined_liftM _) fun nonce => ?_
    refine confined_bind (confined_prover (hp _)) fun spent => ?_
    exact confined_bind (confined_prover (hp _)) fun created => confined_pure _

theorem Spending.confined_statement (hp : ∀ q, K (.prover q)) (s : Spending) :
    s.statement.run.Confined K :=
  confined_bind (confined_prover (hp _)) fun _ => confined_pure _

theorem Deposit.confined_prepare (hp : ∀ q, K (.prover q)) (hc : ∀ i, K (.contract (.path i))) :
    (Deposit.prepare version a amount expected).run.Confined K := by
  refine confined_bind (Spending.confined_gather hp hc) fun s => ?_
  exact confined_bind (Calldata.confined_certify hp (s.confined_statement hp)) fun r => confined_pure _

theorem Withdrawal.confined_prepare (hp : ∀ q, K (.prover q)) (hc : ∀ i, K (.contract (.path i)))
    {payout : Payout} : (Withdrawal.prepare version a amount payout expected).run.Confined K := by
  refine confined_bind (confined_liftM _) fun _ => ?_
  refine confined_bind (Spending.confined_gather hp hc) fun s => ?_
  refine confined_bind (Calldata.confined_certify hp ?_) fun r => confined_pure _
  exact confined_bind (s.confined_statement hp) fun st => confined_pure _

end Confined

end ShieldedWallet
