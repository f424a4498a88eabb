import ShieldedWallet.Proofs.Simulation.Surroundings
import ShieldedWallet.Proofs.Wallet.Notices

/-!
# Movements that are refused locally

Whether the balance covers a withdrawal, whether the amount covers the fee, and whether the balance
would become too large, the wallet knows from the account it has stored. A movement that fails for one
of these reasons fails before anybody is asked anything, and a movement that comes as far as to ask
somebody never fails for one of them, whatever the answers are.
-/

namespace ShieldedWallet

/-- Whether the failure is found in the stored account alone: the balance does not cover the amount, or
would be too large, or the amount does not cover the fee. -/
def Failure.IsLocal : Failure → Prop
  | .insufficientFunds .. | .balanceOverflow .. | .amountBelowFee .. => True
  | _ => False

/-- What the stored account says against a withdrawal. -/
def Withdrawal.refusal? (a : Account) (amount fee : UInt256) : Option Failure :=
  if a.balance.toNat < amount.toNat then some (.insufficientFunds a.balance amount)
  else if amount.toNat < fee.toNat then some (.amountBelowFee amount fee)
  else none

/-- What the stored account says against moving funds into it. The first deposit is never too large. -/
def Deposit.refusal? (a : Account) (amount : UInt256) : Option Failure :=
  match a with
  | .unopened _ => none
  | .opened h =>
    if 2 ^ 256 ≤ h.balance.toNat + amount.toNat then some (.balanceOverflow h.balance amount) else none

namespace Action

variable {α β ε σ : Type} {env : Environment surroundings σ} {s s₁ s' : σ} {t t' : Trace}
  {f : Failure}

/-! ## What an action has asked when it ends -/

/-- The action ends with `r` in the state `s'` after the exchanges `t`. -/
structure Ends (env : Environment surroundings σ) (s : σ) (x : Action α) (t : Trace)
    (r : Except Failure α) (s' : σ) : Prop where
  run_eq : x.run.run env s = (r, s')
  trace_eq : x.run.trace env s = t

theorem ends_throw : Ends env s (throw f : Action α) [] (.error f) s := ⟨rfl, rfl⟩

theorem ends_liftM (x : Except Failure α) : Ends env s (liftM x) [] x s := ⟨rfl, rfl⟩

theorem ends_pure (a : α) : Ends env s (pure a) [] (.ok a) s := ⟨rfl, rfl⟩

theorem Ends.bind {x : Action α} {g : α → Action β} {a : α} {r : Except Failure β}
    (hx : Ends env s x t (.ok a) s₁) (hg : Ends env s₁ (g a) t' r s') :
    Ends env s (x >>= g) (t ++ t') r s' where
  run_eq := (run_bind_ok hx.run_eq).trans hg.run_eq
  trace_eq := by rw [trace_bind_ok hx.run_eq, hx.trace_eq, hg.trace_eq]

theorem Ends.bind_error {x : Action α} (hx : Ends env s x t (.error f) s') (g : α → Action β) :
    Ends env s (x >>= g) t (.error f) s' where
  run_eq := run_bind_error hx.run_eq
  trace_eq := (trace_bind_error hx.run_eq).trans hx.trace_eq

theorem Ends.reported {x : Action α} {a : α} (hx : Ends env s x t (.ok a) s') (stage : Stage)
    (operation : Operation) : Ends env s (reporting stage operation x) t (.ok a) s' where
  run_eq := (run_reporting_ok stage operation hx.run_eq).1
  trace_eq := (run_reporting_ok stage operation hx.run_eq).2.trans hx.trace_eq

/-- A failure is told last. -/
theorem Ends.reported_error {x : Action α} (hx : Ends env s x t (.error f) s') (stage : Stage)
    (operation : Operation) :
    Ends env s (reporting stage operation x) (t ++ [⟨.notify (.ofFailure f stage operation), ()⟩])
      (.error f) (env (.notify (.ofFailure f stage operation)) s').2 where
  run_eq := run_reporting_error stage operation hx.run_eq
  trace_eq := by
    show (x.run.bind _).trace env s = _
    rw [Program.trace_bind, hx.run_eq, hx.trace_eq]
    rfl

theorem ends_account {w : Wallet} {item : Option Bytes} {a : Account}
    (hload : (env (.load w.register.key) s).1 = .ok item) (hread : w.register.read item = .ok a) :
    Ends env s w.account [⟨.load w.register.key, .ok item⟩] (.ok a)
      (env (.load w.register.key) s).2 := by
  have hitem : Ends env s (load w.register.key) [⟨.load w.register.key, .ok item⟩] (.ok item)
      (env (.load w.register.key) s).2 := by
    refine ⟨run_ofProgram_ok (Prod.ext hload rfl), ?_⟩
    rw [← hload]
    exact trace_ofProgram _ _
  have hchecked : Ends env (env (.load w.register.key) s).2 (liftM (w.register.read item)) []
      (w.register.read item) (env (.load w.register.key) s).2 := ends_liftM _
  exact hitem.bind (g := fun item => liftM (w.register.read item)) (hread ▸ hchecked)

/-- Whatever is to follow, an operation whose preparation fails ends with telling so. -/
theorem Ends.generation_error {x : Action α} (hx : Ends env s x t (.error f) s') (m : Movement)
    (g : α → Action β) :
    Ends env s (reporting .generation (.move m) x >>= g)
      (t ++ [⟨.notify (.ofFailure f .generation (.move m)), ()⟩]) (.error f)
      (env (.notify (.ofFailure f .generation (.move m))) s').2 :=
  (hx.reported_error _ _).bind_error g

end Action

open ShieldedWallet.Action

/-! ## What is refused -/

section

variable {σ : Type} {env : Environment surroundings σ} {s s₁ : σ} {version expected : ContractVersion}
  {m : Movement} {a : Account} {amount fee : UInt256} {f : Failure}

/-- No next account is computed if the balance would be out of range, and then nobody is asked. -/
theorem Note.ends_next?_none (h : m.balanceAfter? a.balance amount = none) :
    Ends env s (Note.next? version m a amount) [] (.ok none) s := by
  unfold Note.next?
  rw [h]
  exact ends_pure _

theorem Deposit.refusal?_eq_some (h : Deposit.refusal? a amount = some f) :
    ∃ holding, a = .opened holding ∧ 2 ^ 256 ≤ holding.balance.toNat + amount.toNat ∧
      f = .balanceOverflow holding.balance amount := by
  cases a with
  | unopened id => cases h
  | opened holding =>
    by_cases hlarge : 2 ^ 256 ≤ holding.balance.toNat + amount.toNat
    · simp only [Deposit.refusal?, if_pos hlarge] at h
      cases h
      exact ⟨holding, rfl, hlarge, rfl⟩
    · simp only [Deposit.refusal?, if_neg hlarge] at h
      cases h

theorem Deposit.ends_refused (h : Deposit.refusal? a amount = some f) :
    Ends env s (Deposit.prepare version a amount expected) [] (.error f) s := by
  obtain ⟨holding, rfl, hlarge, rfl⟩ := Deposit.refusal?_eq_some h
  have hnone : Movement.deposit.balanceAfter? (Account.opened holding).balance amount = none :=
    UInt256.add?_eq_none_iff.2 hlarge
  have hgather : Ends env s (Spending.gather version .deposit (.opened holding) amount
      (.balanceOverflow holding.balance amount)) []
      (.error (.balanceOverflow holding.balance amount)) s :=
    (Note.ends_next?_none hnone).bind ends_throw
  exact hgather.bind_error _

theorem Withdrawal.check_eq :
    Withdrawal.check a amount fee = (Withdrawal.refusal? a amount fee).elim (.ok ()) .error := by
  unfold Withdrawal.check Withdrawal.refusal?
  simp only [UInt256.lt_iff]
  split
  · rfl
  · split <;> rfl

theorem Withdrawal.ends_check (h : Withdrawal.refusal? a amount fee = some f) :
    Ends env s (liftM (Withdrawal.check a amount fee)) [] (.error f : Except Failure Unit) s := by
  rw [Withdrawal.check_eq, h]
  exact ends_liftM _

theorem Withdrawal.ends_refused (payout : Payout)
    (h : Withdrawal.refusal? a amount payout.fee = some f) :
    Ends env s (Withdrawal.prepare version a amount payout expected) [] (.error f) s :=
  (Withdrawal.ends_check h).bind_error _

end

/-! ## What is not refused -/

namespace Action

variable {α β ε : Type}

/-- Whatever is answered, the action does not fail for a reason that is found locally. -/
def Spares (x : Action α) : Prop := ∀ t f, x.run.Yields t (.error f) → ¬ f.IsLocal

theorem spares_pure (a : α) : Spares (pure a) := by
  intro t f h
  cases (yields_pure_iff.1 h).2

theorem spares_throw {f : Failure} (hf : ¬ f.IsLocal) : Spares (throw f : Action α) := by
  intro t f' h
  cases (yields_throw_iff.1 h).2
  exact hf

theorem spares_liftM {x : Except Failure α} (hx : ∀ f, x = .error f → ¬ f.IsLocal) :
    Spares (liftM x : Action α) := by
  intro t f h
  exact hx f (yields_liftM_iff.1 h).2.symm

theorem Spares.bind_of {x : Action α} {g : α → Action β} (hx : Spares x)
    (hg : ∀ t a, x.run.Yields t (.ok a) → Spares (g a)) : Spares (x >>= g) := by
  intro t f h
  rcases yields_bind h with ⟨e, he, hf⟩ | ⟨t₁, t₂, a, rfl, h₁, h₂⟩
  · cases hf
    exact hx _ _ he
  · exact hg _ a h₁ _ _ h₂

theorem Spares.bind {x : Action α} {g : α → Action β} (hx : Spares x) (hg : ∀ a, Spares (g a)) :
    Spares (x >>= g) := hx.bind_of fun _ a _ => hg a

theorem Spares.ite {c : Prop} [Decidable c] {x y : Action α} (hx : Spares x) (hy : Spares y) :
    Spares (if c then x else y) := by
  split
  · exact hx
  · exact hy

theorem spares_ofProgram {p : Program surroundings (Except ε α)} {g : ε → Failure}
    (hg : ∀ e, ¬ (g e).IsLocal) : Spares (ofProgram g p) := by
  intro t f h
  obtain ⟨r, -, hr⟩ := yields_ofProgram_iff.1 h
  cases r with
  | ok a => cases hr
  | error e =>
    cases hr
    exact hg e

theorem spares_prover (q : ProverQuery) : Spares (prover q) := spares_ofProgram fun _ h => h

/-- A question that is always answered. -/
theorem spares_lift (p : Program surroundings α) : Spares (ExceptT.lift p) := by
  intro t f h
  obtain ⟨_, _, _, -, -, h⟩ := Program.yields_bind_iff.1 h
  cases (Program.yields_done_iff.1 h).2

theorem Spares.reporting {x : Action α} (hx : Spares x) (stage : Stage) (operation : Operation) :
    Spares (reporting stage operation x) := by
  intro t f h
  rcases yields_reporting_iff.1 h with ⟨a, ha, -⟩ | ⟨f', t', hf, h', -⟩
  · cases ha
  · exact hx t' f h'

end Action

theorem Failure.not_isLocal_ofContract (e : ContractFailure) : ¬ (Failure.ofContract e).IsLocal := by
  cases e <;> exact id

theorem Failure.not_isLocal_ofRelayer (e : RelayerFailure) : ¬ (Failure.ofRelayer e).IsLocal := by
  cases e <;> exact id

theorem Failure.not_isLocal_whileSubmitting (m : Movement) {f : Failure} (h : ¬ f.IsLocal) :
    ¬ (Failure.whileSubmitting m f).IsLocal := by
  unfold Failure.whileSubmitting
  split
  · exact h
  · exact id

section

variable {version expected : ContractVersion} {m : Movement} {a : Account} {amount : UInt256}

theorem Note.spares_next? : Spares (Note.next? version m a amount) := by
  unfold Note.next?
  split
  · exact spares_pure _
  · refine (spares_prover _).bind fun s => Spares.bind ?_ fun note => ?_
    · refine Spares.bind ?_ fun h => spares_prover _
      exact (spares_prover _).bind fun k => spares_prover _
    · exact Spares.ite (spares_throw nofun) (spares_pure _)

theorem Note.spares_onChainPath : Spares (Note.onChainPath a) := by
  unfold Note.onChainPath
  split
  · exact spares_throw nofun
  · split
    · exact spares_throw nofun
    · refine Spares.bind (spares_ofProgram fun _ h => h) fun path => ?_
      exact Spares.ite (spares_pure _) (spares_throw nofun)

theorem Note.spares_splitPath (path : List Scalar) : Spares (Note.splitPath path) := by
  refine (spares_prover _).bind fun height => (spares_prover _).bind fun arity => ?_
  by_cases hlen : path.length ≠ height * arity + 1
  · rw [if_pos hlen]
    refine Spares.bind (spares_throw nofun) fun _ => ?_
    cases path.getLast? with
    | none => exact spares_throw nofun
    | some root => exact spares_pure _
  · rw [if_neg hlen]
    cases path.getLast? with
    | none => exact spares_throw nofun
    | some root => exact spares_pure _

theorem Holding.spares_noteNonce (h : Holding) : Spares (liftM h.noteNonce : Action UInt64) := by
  refine spares_liftM fun f hf => ?_
  unfold Holding.noteNonce at hf
  split at hf
  · cases hf
  · cases hf
    exact nofun

/-- If the balance stays in range, gathering what is needed never says that it is impossible. -/
theorem Spending.spares_gather {impossible : Failure}
    (hb : m.balanceAfter? a.balance amount ≠ none) :
    Spares (Spending.gather version m a amount impossible) := by
  refine Note.spares_next?.bind_of fun t next hnext => ?_
  cases next with
  | none => exact absurd (Note.yields_next?_none hnext) hb
  | some next =>
    refine Note.spares_onChainPath.bind fun r => (Note.spares_splitPath _).bind fun p => ?_
    refine (Holding.spares_noteNonce _).bind fun nonce => (spares_prover _).bind fun spent => ?_
    exact (spares_prover _).bind fun created => spares_pure _

theorem Spending.spares_statement (s : Spending) : Spares s.statement :=
  (spares_prover _).bind fun _ => spares_pure _

namespace Calldata

theorem spares_certify {w : Witness m} {statement : Action (Statement m)} (hs : Spares statement) :
    Spares (certify m w statement) := by
  refine Spares.bind (spares_ofProgram ?_) fun r => hs.bind fun stated => ?_
  · intro e
    nofun
  have hrest : Spares (do
      let valid ← prover (.verify m r.1 stated)
      if valid then return (stated, r.1) else throw (.proofRejected m) :
        Action (Statement m × Bytes)) :=
    (spares_prover _).bind fun valid => Spares.ite (spares_pure _) (spares_throw nofun)
  split
  · exact Spares.bind (spares_throw nofun) fun _ => hrest
  · exact hrest

theorem spares_send (c : Calldata m) (sender : Address) : Spares (c.send sender) := by
  refine Spares.bind (spares_ofProgram fun e => ?_) fun data => ?_
  · exact Failure.not_isLocal_whileSubmitting m (Failure.not_isLocal_ofContract e)
  · exact (spares_lift _).bind fun target => spares_ofProgram fun _ => id

theorem spares_relay (c : Calldata .withdrawal) : Spares c.relay :=
  spares_ofProgram fun e => Failure.not_isLocal_whileSubmitting _ (Failure.not_isLocal_ofRelayer e)

end Calldata

theorem Opening.spares_prepare : Spares (Opening.prepare version a amount expected) := by
  refine (spares_prover _).bind fun secrets => ?_
  refine (Calldata.spares_certify ?_).bind fun r => spares_pure _
  refine Note.spares_next?.bind_of fun t next hnext => ?_
  cases next with
  | none => cases Note.yields_next?_none hnext
  | some b =>
    obtain ⟨-, balance, note, -, rfl, -⟩ := Note.yields_next? hnext
    exact (spares_prover _).bind fun h => spares_pure _

theorem Deposit.spares_prepare (h : Deposit.refusal? a amount = none) (ha : a.isUnopened = false) :
    Spares (Deposit.prepare version a amount expected) := by
  have hb : Movement.deposit.balanceAfter? a.balance amount ≠ none := by
    cases a with
    | unopened id => cases ha
    | opened holding =>
      intro hb
      have hlarge : 2 ^ 256 ≤ holding.balance.toNat + amount.toNat := UInt256.add?_eq_none_iff.1 hb
      simp only [Deposit.refusal?, if_pos hlarge] at h
      cases h
  refine (Spending.spares_gather hb).bind fun s => ?_
  exact (Calldata.spares_certify s.spares_statement).bind fun r => spares_pure _

theorem Withdrawal.spares_check {fee : UInt256} (h : Withdrawal.refusal? a amount fee = none) :
    Spares (liftM (Withdrawal.check a amount fee) : Action Unit) := by
  refine spares_liftM fun f hf => ?_
  rw [Withdrawal.check_eq, h] at hf
  cases hf

theorem Withdrawal.spares_prepare (payout : Payout)
    (h : Withdrawal.refusal? a amount payout.fee = none) :
    Spares (Withdrawal.prepare version a amount payout expected) := by
  have hb : Movement.withdrawal.balanceAfter? a.balance amount ≠ none := by
    intro hb
    have hsmall : a.balance.toNat < amount.toNat := UInt256.sub?_eq_none_iff.1 hb
    simp only [Withdrawal.refusal?, if_pos hsmall] at h
    cases h
  refine (Withdrawal.spares_check h).bind fun _ => (Spending.spares_gather hb).bind fun s => ?_
  refine (Calldata.spares_certify ?_).bind fun r => spares_pure _
  exact s.spares_statement.bind fun st => spares_pure _

theorem Wallet.spares_deliver {c : Calldata m} {send : Action Hash256} (h : Spares send) :
    Spares (Wallet.deliver c send) :=
  (spares_lift _).bind fun _ => (h.reporting _ _).bind fun _ =>
    (spares_lift _).bind fun _ => spares_pure _

theorem Wallet.spares_generate {x : Action (Calldata m)} {send : Calldata m → Action Hash256}
    {stage : Stage} {operation : Operation} (hx : Spares x) (hsend : ∀ c, Spares (send c)) :
    Spares (reporting stage operation x >>= fun c => deliver c (send c)) :=
  (hx.reporting _ _).bind fun c => spares_deliver (hsend c)

end

/-! ## What follows once the account is loaded -/

namespace Action

variable {α β σ : Type} {env : Environment surroundings σ} {s s' : σ} {t : Trace}

/-- As it is answered here, the action does not fail for a reason that is found locally. -/
def SparesAt (env : Environment surroundings σ) (s : σ) (x : Action α) : Prop :=
  ∀ f, (x.run.run env s).1 = .error f → ¬ f.IsLocal

theorem Spares.at {x : Action α} (hx : Spares x) (env : Environment surroundings σ) (s : σ) :
    SparesAt env s x := by
  intro f h
  exact hx _ f (h ▸ Program.yields_trace env x.run s)

/-- Only what follows the result that was found matters. -/
theorem Ends.sparesAt {x : Action α} {g : α → Action β} {a : α} (hx : Ends env s x t (.ok a) s')
    (hg : Spares (g a)) : SparesAt env s (x >>= g) := by
  intro f h
  rw [run_bind_ok hx.run_eq] at h
  exact hg.at env s' f h

theorem SparesAt.bind {x : Action α} {g : α → Action β} (hx : SparesAt env s x)
    (hg : ∀ a, Spares (g a)) : SparesAt env s (x >>= g) := by
  intro f h
  rcases hr : x.run.run env s with ⟨r, s₁⟩
  cases r with
  | error e =>
    rw [run_bind_error hr] at h
    cases h
    exact hx f (by rw [hr])
  | ok a =>
    rw [run_bind_ok hr] at h
    exact (hg a).at env s₁ f h

theorem SparesAt.reporting {x : Action α} (hx : SparesAt env s x) (stage : Stage)
    (operation : Operation) : SparesAt env s (reporting stage operation x) := by
  intro f h
  rcases hr : x.run.run env s with ⟨r, s₁⟩
  cases r with
  | error e =>
    rw [run_reporting_error stage operation hr] at h
    cases h
    exact hx f (by rw [hr])
  | ok a =>
    rw [(run_reporting_ok stage operation hr).1] at h
    cases h

end Action

/-! ## The movements of a wallet -/

/-- A failure that is found locally says neither that the wallet is outdated nor that the account is
not on the chain. -/
theorem Failure.IsLocal.alarm_eq {f : Failure} (h : f.IsLocal) : f.alarm = .general := by
  cases f <;> first | rfl | exact h.elim

theorem Withdrawal.isLocal_refusal? {a : Account} {amount fee : UInt256} {f : Failure}
    (h : Withdrawal.refusal? a amount fee = some f) : f.IsLocal := by
  unfold Withdrawal.refusal? at h
  split at h
  · cases h
    trivial
  · split at h
    · cases h
      trivial
    · cases h

theorem Deposit.isLocal_refusal? {a : Account} {amount : UInt256} {f : Failure}
    (h : Deposit.refusal? a amount = some f) : f.IsLocal := by
  obtain ⟨holding, -, -, rfl⟩ := Deposit.refusal?_eq_some h
  trivial

section

variable {σ : Type}

/-- What the stored account `a` says against the movement `x` decides whether it fails for a reason
that is found locally. If it does, the account is loaded, the owner is told the failure, and nobody
is asked anything. -/
structure CheckedLocally (env : Environment surroundings σ) (s : σ) (w : Wallet) (a : Account)
    (m : Movement) (refusal? : Option Failure) (x : Action Hash256) : Prop where
  fails : ∀ f, refusal? = some f → (x.run.run env s).1 = .error f
  asks : ∀ f, refusal? = some f → x.run.trace env s =
    [⟨.load w.register.key, (env (.load w.register.key) s).1⟩,
      ⟨.notify (.failed .general f .generation (.move m)), ()⟩]
  /-- What neither loading nor telling the owner changes is not changed. -/
  unchanged : ∀ f, refusal? = some f → ∀ {β : Type} (view : σ → β),
    (∀ s, view (env (.load w.register.key) s).2 = view s) →
    (∀ n s, view (env (.notify n) s).2 = view s) → view (x.run.run env s).2 = view s
  passes : refusal? = none → ∀ f, (x.run.run env s).1 = .error f → ¬ f.IsLocal

variable {env : Environment surroundings σ} {s : σ} {w : Wallet} {a : Account} {item : Option Bytes}
  {m : Movement} {refusal? : Option Failure}

/-- It is enough that a movement that is refused ends as soon as the account is loaded and the owner is
told. -/
theorem CheckedLocally.of_ends {x : Action Hash256}
    (hload : (env (.load w.register.key) s).1 = .ok item)
    (hlocal : ∀ f, refusal? = some f → f.IsLocal)
    (hends : ∀ f, refusal? = some f → Ends env s x
      [⟨.load w.register.key, .ok item⟩, ⟨.notify (.ofFailure f .generation (.move m)), ()⟩] (.error f)
      (env (.notify (.ofFailure f .generation (.move m))) (env (.load w.register.key) s).2).2)
    (hspares : refusal? = none → SparesAt env s x) :
    CheckedLocally env s w a m refusal? x where
  fails f hf := by rw [(hends f hf).run_eq]
  asks f hf := by rw [(hends f hf).trace_eq, hload, Notice.ofFailure, (hlocal f hf).alarm_eq]
  unchanged f hf β view hl hn := by rw [(hends f hf).run_eq, hn, hl]
  passes := hspares

/-- Funds are moved into an account that has a note unless its balance would become too large, and into
one that has none in any case. -/
theorem Wallet.checkedLocally_shield (hload : (env (.load w.register.key) s).1 = .ok item)
    (hread : w.register.read item = .ok a) (amount : UInt256) (sender : Address) :
    CheckedLocally env s w a .deposit (Deposit.refusal? a amount) (w.shield amount sender) := by
  have hloaded := (ends_account hload hread).reported .generation (.move .opening)
  refine .of_ends hload (fun f => Deposit.isLocal_refusal?) (fun f hf => ?_) fun hnone => ?_
  · obtain ⟨holding, rfl, -, -⟩ := Deposit.refusal?_eq_some hf
    have hopen : (Account.opened holding).nonce ≠ 0 :=
      (Register.nonce_of_read hread).resolve_left nofun
    refine hloaded.bind ?_
    rw [if_neg hopen]
    exact (Deposit.ends_refused hf).generation_error .deposit _
  · refine hloaded.sparesAt ?_
    by_cases hzero : a.nonce = 0
    · rw [if_pos hzero]
      exact Wallet.spares_generate Opening.spares_prepare fun c => c.spares_send sender
    · rw [if_neg hzero]
      have hopened : a.isUnopened = false := by
        cases a with
        | unopened id => exact absurd rfl hzero
        | opened holding => rfl
      exact Wallet.spares_generate (Deposit.spares_prepare hnone hopened)
        fun c => c.spares_send sender

theorem Wallet.checkedLocally_withdraw (hload : (env (.load w.register.key) s).1 = .ok item)
    (hread : w.register.read item = .ok a) (amount fee : UInt256) (destination : Address) :
    CheckedLocally env s w a .withdrawal (Withdrawal.refusal? a amount fee)
      (w.withdraw amount fee destination) := by
  have hloaded := ends_account hload hread
  refine .of_ends hload (fun f => Withdrawal.isLocal_refusal?) (fun f hf => ?_) fun hnone => ?_
  · refine Ends.generation_error (t := [_]) ?_ .withdrawal _
    exact hloaded.bind ((Withdrawal.ends_check hf).bind_error _)
  · refine ((hloaded.sparesAt ?_).reporting _ _).bind fun c => Wallet.spares_deliver c.spares_relay
    refine (Withdrawal.spares_check hnone).bind fun _ => ?_
    refine (spares_ofProgram Failure.not_isLocal_ofRelayer).bind fun relayer => ?_
    exact Withdrawal.spares_prepare ⟨destination, relayer, fee⟩ hnone

theorem Wallet.checkedLocally_withdrawAlone (hload : (env (.load w.register.key) s).1 = .ok item)
    (hread : w.register.read item = .ok a) (amount : UInt256) (destination sender : Address) :
    CheckedLocally env s w a .withdrawal (Withdrawal.refusal? a amount 0)
      (w.withdrawAlone amount destination sender) := by
  have hloaded := ends_account hload hread
  refine .of_ends hload (fun f => Withdrawal.isLocal_refusal?) (fun f hf => ?_) fun hnone => ?_
  · refine Ends.generation_error (t := [_]) ?_ .withdrawal _
    exact hloaded.bind (Withdrawal.ends_refused ⟨destination, sender, 0⟩ hf)
  · refine ((hloaded.sparesAt ?_).reporting _ _).bind fun c =>
      Wallet.spares_deliver (c.spares_send sender)
    exact Withdrawal.spares_prepare ⟨destination, sender, 0⟩ hnone

/-- Once the stored account is loaded, it alone decides whether a movement fails because the balance
does not cover the amount, the amount does not cover the fee, or the balance would become too large.
Nobody is asked anything then, and nothing changes. -/
theorem movements_checked_locally (hload : (env (.load w.register.key) s).1 = .ok item)
    (hread : w.register.read item = .ok a) :
    (∀ amount sender, CheckedLocally env s w a .deposit (Deposit.refusal? a amount)
      (w.shield amount sender)) ∧
    (∀ amount fee destination, CheckedLocally env s w a .withdrawal
      (Withdrawal.refusal? a amount fee) (w.withdraw amount fee destination)) ∧
    ∀ amount destination sender, CheckedLocally env s w a .withdrawal
      (Withdrawal.refusal? a amount 0) (w.withdrawAlone amount destination sender) :=
  ⟨Wallet.checkedLocally_shield hload hread, Wallet.checkedLocally_withdraw hload hread,
    Wallet.checkedLocally_withdrawAlone hload hread⟩

end

namespace Simulation

/-- What a world holds apart from what its wallets' owners have been told: the ledger, the storages, and
how often each party has been asked. -/
def World.parties (w : World) : Ledger × (Nat → Storage) × ProverState × RelayerState × Nat :=
  (w.ledger, w.storages, w.prover, w.relayer, w.sent)

theorem World.parties_load (c storage : Nat) (key : String) (w : World) :
    (World.answer c storage (.load key) w).2.parties = w.parties := by
  rcases h : w.meetFault (.load key) with ⟨r, w'⟩
  obtain rfl : (w.meetFault (.load key)).2 = w' := by rw [h]
  cases r with
  | some r => rw [answer_of_fault h]; rfl
  | none => rw [answer_of_no_fault h]; rfl

theorem World.parties_notify (c storage : Nat) (n : Notice) (w : World) :
    (World.answer c storage (.notify n) w).2.parties = w.parties := rfl

/-- An account with the balance 100 and one note. -/
def saved7 : Account := .opened ⟨7, 1, 100, 9, some 0⟩

/-- A world with that account in the storage of the wallet 7. -/
def stored7 : World := (World.new .direct 1).storeItem 0 "accountState" (wallet7.register.item saved7)

/-- A withdrawal of 101 out of 100 is refused, and so is one of 50 at a fee of 51. -/
theorem movements_checked_locally_stored7 :
    ((wallet7.withdraw 101 0 relayerAddress).run.run (World.answer 0 0) stored7).1 =
        .error (.insufficientFunds 100 101) ∧
      ((wallet7.withdraw 50 51 relayerAddress).run.run (World.answer 0 0) stored7).1 =
        .error (.amountBelowFee 50 51) ∧
      ((wallet7.withdraw 50 51 relayerAddress).run.run (World.answer 0 0) stored7).2.parties =
        stored7.parties := by
  have hload : (World.answer 0 0 (.load wallet7.register.key) stored7).1 =
      .ok (some (wallet7.register.item saved7)) := rfl
  have hread : wallet7.register.read (some (wallet7.register.item saved7)) = .ok saved7 :=
    Register.read_item rfl (.inr (by decide))
  obtain ⟨-, hwithdraw, -⟩ := movements_checked_locally hload hread
  refine ⟨(hwithdraw 101 0 relayerAddress).fails _ rfl,
    (hwithdraw 50 51 relayerAddress).fails _ rfl, ?_⟩
  exact (hwithdraw 50 51 relayerAddress).unchanged _ rfl World.parties
    (World.parties_load 0 0 _) (World.parties_notify 0 0)

end Simulation

end ShieldedWallet
