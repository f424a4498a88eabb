import ShieldedWallet.Proofs.Wallet.Orders
import ShieldedWallet.Proofs.Wallet.Rejection
import ShieldedWallet.Proofs.Simulation.Replay

/-!
# What the owner is told

Every operation of a wallet tells its owner how it has gone, and its result is what was told last. A
failure is told once, with what was being done, and an outdated wallet and an account that is not on
the chain are told apart from everything else.
-/

namespace ShieldedWallet

open ShieldedWallet.Action

namespace Trace

/-- What the owner has been told, in its order. -/
def notices (t : Trace) : List Notice :=
  t.filterMap fun
    | ⟨.notify n, _⟩ => some n
    | _ => none

@[simp] theorem notices_append (t t' : Trace) :
    Trace.notices (t ++ t') = t.notices ++ t'.notices := List.filterMap_append

@[simp] theorem notices_nil : Trace.notices [] = [] := rfl

@[simp] theorem notices_notify (n : Notice) (u : Unit) (t : Trace) :
    Trace.notices (⟨.notify n, u⟩ :: t) = n :: t.notices := rfl

end Trace

/-- A question that tells the owner nothing. -/
def Query.IsSilent : Query → Prop
  | .notify _ => False
  | _ => True

theorem Trace.notices_of_silent {t : Trace} (h : ∀ x ∈ t, x.query.IsSilent) : t.notices = [] := by
  refine List.filterMap_eq_nil_iff.2 fun x hx => ?_
  obtain ⟨q, r⟩ := x
  cases q with
  | notify n => exact absurd (h _ hx) id
  | _ => rfl

theorem Program.Yields.notices_eq {α : Type} {p : Program surroundings α} {t : Trace} {a : α}
    (h : p.Yields t a) (hp : p.Confined Query.IsSilent) : t.notices = [] :=
  Trace.notices_of_silent (h.confined hp)

/-- A failure is told in the end, and a success is not. -/
theorem Action.yields_reporting_iff {α : Type} {stage : Stage} {operation : Operation} {x : Action α}
    {t : Trace} {r : Except Failure α} :
    (reporting stage operation x).run.Yields t r ↔
      (∃ a, r = .ok a ∧ x.run.Yields t r) ∨
      ∃ f t', r = .error f ∧ x.run.Yields t' r ∧
        t = t' ++ [⟨.notify (.ofFailure f stage operation), ()⟩] := by
  constructor
  · intro h
    obtain ⟨t₁, t₂, r', rfl, h₁, h₂⟩ := Program.yields_bind_iff.1 h
    cases r' with
    | ok a =>
      obtain ⟨rfl, rfl⟩ := Program.yields_done_iff.1 h₂
      exact .inl ⟨a, rfl, by simpa using h₁⟩
    | error f =>
      obtain ⟨t₃, t₄, u, rfl, h₃, h₄⟩ := Program.yields_bind_iff.1 h₂
      obtain ⟨rfl, rfl⟩ := Program.yields_done_iff.1 h₄
      rw [Query.yields_program_iff.1 h₃]
      exact .inr ⟨f, t₁, rfl, h₁, by simp⟩
  · rintro (⟨a, rfl, h⟩ | ⟨f, t', rfl, h, rfl⟩)
    · exact Program.yields_bind_iff.2 ⟨t, [], _, by simp, h, Program.yields_done_iff.2 ⟨rfl, rfl⟩⟩
    · refine Program.yields_bind_iff.2 ⟨t', _, _, rfl, h, ?_⟩
      exact Program.yields_bind_iff.2
        ⟨_, [], (), rfl, Query.yields_program_iff.2 rfl, Program.yields_done_iff.2 ⟨rfl, rfl⟩⟩

/-- How a failure is told: a refusal of the version as outdated, an account that is not on the chain as
such, and all else as any failure. A refusal in an answer of the contract or the relayer is this
failure. -/
structure Classified (t : Trace) (failure : Option Failure) : Prop where
  outdated_iff : ∀ f, failure = some f → (f.alarm = .outdated ↔ f.IsRejection)
  notOnChain_iff : ∀ f, failure = some f → (f.alarm = .notOnChain ↔ ∃ reason, f = .notOnChain reason)
  general_iff : ∀ f, failure = some f →
    (f.alarm = .general ↔ ¬ f.IsRejection ∧ ∀ reason, f ≠ .notOnChain reason)
  surfaces : ∀ f ∈ t.rejections, failure = some f

theorem Candid.classified {t : Trace} {failure : Option Failure} (h : Candid t failure) :
    Classified t failure := by
  have hchain : ∀ f : Failure, f.isNotOnChain = true ↔ ∃ reason, f = .notOnChain reason := by
    intro f
    cases f <;> simp [Failure.isNotOnChain]
  have hexclusive : ∀ f : Failure, f.isOutdated = true → f.isNotOnChain = false := by
    intro f
    cases f <;> simp [Failure.isOutdated, Failure.isNotOnChain]
  refine ⟨fun f hf => ?_, fun f hf => ?_, fun f hf => ?_, h.surfaces⟩
  · rw [h.isRejection_iff hf, Failure.alarm]
    by_cases ho : f.isOutdated = true
    · simp [ho]
    · by_cases hn : f.isNotOnChain = true <;> simp [ho, hn]
  · rw [← hchain, Failure.alarm]
    by_cases ho : f.isOutdated = true
    · simp [ho, hexclusive f ho]
    · by_cases hn : f.isNotOnChain = true <;> simp [ho, hn]
  · have hnot : (∀ reason, f ≠ .notOnChain reason) ↔ ¬ f.isNotOnChain = true := by
      rw [hchain]
      exact not_exists.symm
    rw [h.isRejection_iff hf, hnot, Failure.alarm]
    by_cases ho : f.isOutdated = true
    · simp [ho]
    · by_cases hn : f.isNotOnChain = true <;> simp [ho, hn]

/-! ## Operations that move funds -/

/-- What is told by an operation that prepares a call and sends it: that preparing it has failed, or
that it is prepared and that sending it has failed, or that it is prepared and sent. -/
inductive ToldOfMovement (m : Movement) (s : CallSummary) : List Notice → Except Failure Hash256 → Prop
  | generation (f : Failure) : ToldOfMovement m s [.ofFailure f .generation (.move m)] (.error f)
  | sending (f : Failure) :
      ToldOfMovement m s [.prepared s (.move m), .ofFailure f .sending (.move m)] (.error f)
  | sent (txHash : Hash256) :
      ToldOfMovement m s [.prepared s (.move m), .sent txHash (.move m)] (.ok txHash)

section Movement

variable {m : Movement} {version expected : ContractVersion} {amount : UInt256} {a : Account}
  {t : Trace} {r : Except Failure Hash256}

theorem Opening.summary_of_prepare {c : Calldata .opening}
    (h : (prepare version a amount expected).run.Yields t (.ok c)) :
    c.summary = ⟨.opening, amount, expected⟩ := by
  obtain ⟨_, _, _, rfl, -, h⟩ := yields_bind_ok h
  obtain ⟨_, _, _, rfl, -, h⟩ := yields_bind_ok h
  cases (yields_pure_iff.1 h).2
  rfl

theorem Deposit.summary_of_prepare {c : Calldata .deposit}
    (h : (prepare version a amount expected).run.Yields t (.ok c)) :
    c.summary = ⟨.deposit, amount, expected⟩ := by
  obtain ⟨_, _, _, rfl, -, h⟩ := yields_bind_ok h
  obtain ⟨_, _, _, rfl, -, h⟩ := yields_bind_ok h
  cases (yields_pure_iff.1 h).2
  rfl

theorem Withdrawal.summary_of_prepare {payout : Payout} {c : Calldata .withdrawal}
    (h : (prepare version a amount payout expected).run.Yields t (.ok c)) :
    c.summary = ⟨.withdrawal, amount, expected⟩ := by
  obtain ⟨_, _, _, rfl, -, h⟩ := yields_bind_ok h
  obtain ⟨_, _, _, rfl, -, h⟩ := yields_bind_ok h
  obtain ⟨_, _, _, rfl, -, h⟩ := yields_bind_ok h
  cases (yields_pure_iff.1 h).2
  rfl

theorem Calldata.silent_send (c : Calldata m) (sender : Address) :
    (c.send sender).run.Confined Query.IsSilent := by
  refine confined_bind (confined_contractOr trivial) fun data => ?_
  refine confined_bind ?_ fun target => confined_ofProgram (Query.confined_program trivial)
  exact (Query.confined_program trivial).bind fun _ => Program.confined_done _

/-- That a call is prepared is told, and then what has become of it. -/
theorem Wallet.told_deliver {c : Calldata m} {send : Action Hash256}
    (hsend : send.run.Confined Query.IsSilent) (h : (deliver c send).run.Yields t r) :
    ToldOfMovement m c.summary t.notices r := by
  rcases yields_bind h with ⟨f, hf, rfl⟩ | ⟨t₁, t₂, u, rfl, h₁, h₂⟩
  · cases (yields_notify_iff.1 hf).2
  obtain ⟨rfl, -⟩ := yields_notify_iff.1 h₁
  rcases yields_bind h₂ with ⟨f, hf, rfl⟩ | ⟨t₃, t₄, txHash, rfl, h₃, h₄⟩
  · rcases yields_reporting_iff.1 hf with ⟨a, ha, -⟩ | ⟨f', t', hf', hsent, rfl⟩
    · cases ha
    · cases hf'
      have hsilent := hsent.notices_eq hsend
      simpa [hsilent] using ToldOfMovement.sending f
  rcases yields_reporting_iff.1 h₃ with ⟨a, -, hsent⟩ | ⟨f', t', hf', -⟩
  · have hsilent := hsent.notices_eq hsend
    rcases yields_bind h₄ with ⟨f, hf, rfl⟩ | ⟨t₅, t₆, u', rfl, h₅, h₆⟩
    · cases (yields_notify_iff.1 hf).2
    obtain ⟨rfl, -⟩ := yields_notify_iff.1 h₅
    obtain ⟨rfl, rfl⟩ := yields_pure_iff.1 h₆
    simpa [hsilent] using ToldOfMovement.sent txHash
  · cases hf'

theorem Wallet.told_generate {x : Action (Calldata m)} {send : Calldata m → Action Hash256}
    {s : CallSummary} (hx : x.run.Confined Query.IsSilent)
    (hsummary : ∀ t c, x.run.Yields t (.ok c) → c.summary = s)
    (hsend : ∀ c, (send c).run.Confined Query.IsSilent)
    (h : (reporting .generation (.move m) x >>= fun c => deliver c (send c)).run.Yields t r) :
    ToldOfMovement m s t.notices r := by
  rcases yields_bind h with ⟨f, hf, rfl⟩ | ⟨t₁, t₂, c, rfl, h₁, h₂⟩
  · rcases yields_reporting_iff.1 hf with ⟨c, hc, -⟩ | ⟨f', t', hf', hfailed, rfl⟩
    · cases hc
    · cases hf'
      have hsilent := hfailed.notices_eq hx
      simpa [hsilent] using ToldOfMovement.generation f
  rcases yields_reporting_iff.1 h₁ with ⟨a, -, hprepared⟩ | ⟨f', t', hf', -⟩
  · have hsilent := hprepared.notices_eq hx
    have htold := told_deliver (hsend c) h₂
    rw [hsummary _ _ hprepared] at htold
    simpa [hsilent] using htold
  · cases hf'

end Movement

namespace Wallet

variable {w : Wallet} {t : Trace} {r : Except Failure Hash256} {amount : UInt256}

theorem silent_account (w : Wallet) : w.account.run.Confined Query.IsSilent :=
  w.confined_account trivial

theorem told_withdraw {fee : UInt256} {destination : Address}
    (h : (w.withdraw amount fee destination).run.Yields t r) :
    ToldOfMovement .withdrawal ⟨.withdrawal, amount, w.settings.version⟩ t.notices r := by
  refine told_generate ?_ (fun t c h => ?_) (fun c => ?_) h
  · refine confined_bind w.silent_account fun a => confined_bind (confined_liftM _) fun _ => ?_
    refine confined_bind (confined_ofProgram (Query.confined_program trivial)) fun relayer => ?_
    exact Withdrawal.confined_prepare (fun _ => trivial) fun _ => trivial
  · obtain ⟨_, _, _, rfl, -, h⟩ := yields_bind_ok h
    obtain ⟨_, _, _, rfl, -, h⟩ := yields_bind_ok h
    obtain ⟨_, _, _, rfl, -, h⟩ := yields_bind_ok h
    exact Withdrawal.summary_of_prepare h
  · exact confined_ofProgram (Query.confined_program trivial)

theorem told_withdrawAlone {destination sender : Address}
    (h : (w.withdrawAlone amount destination sender).run.Yields t r) :
    ToldOfMovement .withdrawal ⟨.withdrawal, amount, w.settings.version⟩ t.notices r := by
  refine told_generate ?_ (fun t c h => ?_) (fun c => c.silent_send sender) h
  · refine confined_bind w.silent_account fun a => ?_
    exact Withdrawal.confined_prepare (fun _ => trivial) fun _ => trivial
  · obtain ⟨_, _, _, rfl, -, h⟩ := yields_bind_ok h
    exact Withdrawal.summary_of_prepare h

/-- The movement that moves funds into an account of which loading it says `a`. -/
def shielding : Except Failure Account → Movement
  | .ok a => if a.nonce = 0 then .opening else .deposit
  | .error _ => .opening

theorem run_account {σ : Type} (env : Environment surroundings σ) (s : σ) :
    (w.account.run.run env s).1 = History.loaded w.register (env (.load w.register.key) s).1 := by
  have hload : (Query.load w.register.key).program.run env s = env (.load w.register.key) s := rfl
  obtain ⟨answer, s', he⟩ : ∃ answer s', env (.load w.register.key) s = (answer, s') := ⟨_, _, rfl⟩
  rw [he] at hload ⊢
  cases answer with
  | error e => exact congrArg Prod.fst (run_bind_error (run_ofProgram_error hload))
  | ok item => exact congrArg Prod.fst (run_bind_ok (run_ofProgram_ok hload))

theorem told_shield {sender : Address} (h : (w.shield amount sender).run.Yields t r) :
    ∃ answer t', t = ⟨.load w.register.key, answer⟩ :: t' ∧
      ToldOfMovement (shielding (History.loaded w.register answer))
        ⟨shielding (History.loaded w.register answer), amount, w.settings.version⟩ t.notices r := by
  rcases yields_bind h with ⟨f, hf, rfl⟩ | ⟨t₁, t₂, a, rfl, h₁, h₂⟩
  · rcases yields_reporting_iff.1 hf with ⟨c, hc, -⟩ | ⟨f', t', hf', hfailed, rfl⟩
    · cases hc
    · cases hf'
      have hsilent := hfailed.notices_eq w.silent_account
      obtain ⟨answer, rfl, ha⟩ := History.yields_load hfailed
      refine ⟨answer, _, rfl, ?_⟩
      rw [← ha, Trace.notices_append, hsilent]
      exact ToldOfMovement.generation f
  rcases yields_reporting_iff.1 h₁ with ⟨a', ha', hloaded⟩ | ⟨f', t', hf', -⟩
  · have hsilent := hloaded.notices_eq w.silent_account
    obtain ⟨answer, rfl, ha⟩ := History.yields_load hloaded
    refine ⟨answer, t₂, rfl, ?_⟩
    rw [← ha, Trace.notices_append, hsilent, List.nil_append]
    have hopening : a.nonce = 0 → shielding (.ok a) = .opening := fun h0 => if_pos h0
    have hdeposit : a.nonce ≠ 0 → shielding (.ok a) = .deposit := fun h0 => if_neg h0
    split at h₂
    case isTrue h0 =>
      rw [hopening h0]
      exact told_generate (Opening.confined_prepare fun _ => trivial)
        (fun _ _ => Opening.summary_of_prepare) (fun c => c.silent_send sender) h₂
    case isFalse h0 =>
      rw [hdeposit h0]
      exact told_generate (Deposit.confined_prepare (fun _ => trivial) fun _ => trivial)
        (fun _ _ => Deposit.summary_of_prepare) (fun c => c.silent_send sender) h₂
  · cases hf'

theorem honest_account (w : Wallet) : Honest w.account := History.honest_load

theorem honest_deliver {m : Movement} {c : Calldata m} {send : Action Hash256} (hsend : Honest send) :
    Honest (deliver c send) :=
  (honest_notify _).bind fun _ => (hsend.reporting _ _).bind fun _ =>
    (honest_notify _).bind fun _ => honest_pure _

theorem honest_shield (sender : Address) : Honest (w.shield amount sender) := by
  refine (w.honest_account.reporting _ _).bind fun a => Honest.ite ?_ ?_
  · exact (Opening.honest_prepare.reporting _ _).bind fun c => honest_deliver (c.honest_send sender)
  · exact (Deposit.honest_prepare.reporting _ _).bind fun c => honest_deliver (c.honest_send sender)

theorem honest_withdraw (fee : UInt256) (destination : Address) :
    Honest (w.withdraw amount fee destination) := by
  refine Honest.bind (Honest.reporting ?_ _ _) fun c => honest_deliver c.honest_relay
  refine w.honest_account.bind fun a => (Withdrawal.honest_check fee).bind fun _ => ?_
  refine Honest.bind ?_ fun relayer => Withdrawal.honest_prepare
  refine honest_relayerOr (fun _ => rfl) (fun e he => ?_) .address
  cases e <;> first | exact ⟨_, rfl⟩ | exact he.elim

theorem honest_withdrawAlone (destination sender : Address) :
    Honest (w.withdrawAlone amount destination sender) := by
  refine Honest.bind (Honest.reporting ?_ _ _) fun c => honest_deliver (c.honest_send sender)
  exact w.honest_account.bind fun a => Withdrawal.honest_prepare

theorem honest_sync : Honest w.sync := History.honest_pass.reporting _ _

end Wallet

/-! ## Synchronisation and replay -/

/-- What is told by a synchronisation: the transactions that were missing, as many as the result says
if it succeeds, and then the failure if it fails. -/
inductive ToldOfSync : List Notice → Except Failure Nat → Prop
  | done (ts : List Transaction) : ToldOfSync (ts.map .transaction) (.ok ts.length)
  | failed (ts : List Transaction) (f : Failure) :
      ToldOfSync (ts.map .transaction ++ [.ofFailure f .syncing .sync]) (.error f)

/-- What is told while the history is read: nothing, or the failure that ends it, and then nothing
else is done. -/
inductive ToldOfHistory : Trace → Option Failure → Prop
  | done {t : Trace} (hsilent : t.notices = []) : ToldOfHistory t none
  | failed {t : Trace} (hsilent : t.notices = []) (f : Failure) :
      ToldOfHistory (t ++ [⟨.notify (.ofFailure f .syncing .sync), ()⟩]) (some f)

namespace History

variable {version : ContractVersion} {r : Register} {t : Trace}

/-- Only transactions are told by a pass. -/
theorem notices_pass {res : Except Failure Nat} (h : (pass version r).run.Yields t res) :
    t.notices = t.reported.map .transaction := by
  have hconfined : (pass version r).run.Confined fun q : Query =>
      ∀ n, q = .notify n → ∃ x, n = .transaction x := by
    rw [pass_eq]
    refine Action.confined_exclusive nofun nofun (confined_catchUp ?_ nofun (fun _ => nofun) ?_)
    · intro q hq n hn
      rw [hn] at hq
      exact hq.elim
    · intro x n hn
      cases hn
      exact ⟨x, rfl⟩
  have htold := h.confined hconfined
  clear h
  induction t with
  | nil => rfl
  | cons x t ih =>
    obtain ⟨q, a⟩ := x
    have hrest := ih fun x hx => htold x (List.mem_cons_of_mem _ hx)
    cases q with
    | notify n =>
      obtain ⟨y, rfl⟩ := htold _ List.mem_cons_self n rfl
      show _ :: Trace.notices t = _ :: (Trace.reported t).map _
      rw [hrest]
    | _ => exact hrest

/-- A pass that succeeds tells as many transactions as its result says. -/
theorem length_reported_pass {n : Nat} (h : (pass version r).run.Yields t (.ok n)) :
    t.reported.length = n := by
  rw [pass_eq] at h
  obtain ⟨t', rfl, h'⟩ := Action.yields_exclusive_iff.1 h
  obtain ⟨t₁, t₂, a, rfl, h₁, h₂⟩ := Action.yields_bind_ok h'
  obtain ⟨answer, rfl, -⟩ := yields_load h₁
  obtain ⟨xs, hw, hend⟩ := yields_advance (R := fun _ _ _ => True) h₂ fun _ _ _ _ _ _ => trivial
  have hreported : Trace.reported (⟨.acquire, ()⟩ ::
      (([⟨.load r.key, answer⟩] ++ t₂) ++ [⟨.release, ()⟩])) = Trace.reported t₂ := by
    show Trace.reported (t₂ ++ [⟨.release, ()⟩]) = _
    rw [Trace.reported_append]
    exact List.append_nil _
  rw [hreported, hw.reported_eq, List.length_map, ← hend.eq_of_ok, Nat.zero_add]

end History

namespace Wallet

variable {w : Wallet} {t : Trace}

theorem told_sync {r : Except Failure Nat} (h : w.sync.run.Yields t r) : ToldOfSync t.notices r := by
  rcases yields_reporting_iff.1 h with ⟨n, rfl, hpass⟩ | ⟨f, t', rfl, hpass, rfl⟩
  · rw [History.notices_pass hpass, ← History.length_reported_pass hpass]
    exact .done _
  · rw [Trace.notices_append, History.notices_pass hpass]
    exact .failed _ f

theorem told_history {r : List Transaction × Option Failure} (h : w.history.Yields t r) :
    ToldOfHistory t r.2 ∧ Candid t r.2 := by
  obtain ⟨t₁, t₂, ⟨ts, failure⟩, rfl, h₁, h₂⟩ := Program.yields_bind_iff.1 h
  have hcandid := History.candid_replayFrom h₁
  have hsilent : Trace.notices t₁ = [] := by
    refine h₁.notices_eq fun t q hq => ?_
    have hlookup := History.confined_replayFrom _ _ t q hq
    cases q <;> trivial
  cases failure with
  | none =>
    obtain ⟨rfl, rfl⟩ := Program.yields_done_iff.1 h₂
    rw [List.append_nil]
    exact ⟨.done hsilent, hcandid⟩
  | some f =>
    obtain ⟨t₃, t₄, u, rfl, h₃, h₄⟩ := Program.yields_bind_iff.1 h₂
    obtain ⟨rfl, rfl⟩ := Program.yields_done_iff.1 h₄
    obtain ⟨rfl, -⟩ := yields_notify_iff.1 h₃
    rw [List.append_nil]
    exact ⟨.failed hsilent f, hcandid.append_left rfl⟩

end Wallet

/-! ## All operations -/

/-- What is told by an action and what it ends with belong together, and its failure is told as what
it is. -/
def Told {σ α : Type} (env : Environment surroundings σ) (s : σ) (x : Action α)
    (P : List Notice → Except Failure α → Prop) : Prop :=
  P (Trace.notices (x.run.trace env s)) (x.run.run env s).1 ∧
    Classified (x.run.trace env s) (Except.failure? (x.run.run env s).1)

theorem Action.Honest.told {σ α : Type} {env : Environment surroundings σ} {s : σ} {x : Action α}
    {P : List Notice → Except Failure α → Prop} (hx : Honest x)
    (hP : ∀ t r, x.run.Yields t r → P (Trace.notices t) r) : Told env s x P :=
  ⟨hP _ _ (Program.yields_trace env x.run s), (hx _ _ (Program.yields_trace env x.run s)).classified⟩

/-- Whatever the prover, the contract, the relayer, the sender and the storage answer, each operation
tells its owner how it has gone, once, and ends as it has told. -/
theorem operations_told (w : Wallet) {σ : Type} (env : Environment surroundings σ) (s : σ) :
    (∀ amount sender, Told env s (w.shield amount sender)
      (ToldOfMovement (Wallet.shielding (w.account.run.run env s).1)
        ⟨Wallet.shielding (w.account.run.run env s).1, amount, w.settings.version⟩)) ∧
    (∀ amount fee destination, Told env s (w.withdraw amount fee destination)
      (ToldOfMovement .withdrawal ⟨.withdrawal, amount, w.settings.version⟩)) ∧
    (∀ amount destination sender, Told env s (w.withdrawAlone amount destination sender)
      (ToldOfMovement .withdrawal ⟨.withdrawal, amount, w.settings.version⟩)) ∧
    Told env s w.sync ToldOfSync ∧
    ToldOfHistory (w.history.trace env s) (w.history.run env s).1.2 ∧
    Classified (w.history.trace env s) (w.history.run env s).1.2 := by
  refine ⟨fun amount sender => ⟨?_, ?_⟩, fun amount fee destination => ?_,
    fun amount destination sender => ?_, ?_, ?_⟩
  · obtain ⟨answer, t', ht, htold⟩ :=
      Wallet.told_shield (Program.yields_trace env (w.shield amount sender).run s)
    have hfirst : ((w.shield amount sender).run.trace env s).head? =
        some ⟨.load w.register.key, (env (.load w.register.key) s).1⟩ := rfl
    rw [ht] at hfirst
    cases hfirst
    rw [Wallet.run_account]
    exact htold
  · exact (Wallet.honest_shield sender _ _ (Program.yields_trace env _ s)).classified
  · exact (Wallet.honest_withdraw fee destination).told fun _ _ => Wallet.told_withdraw
  · exact (Wallet.honest_withdrawAlone destination sender).told fun _ _ => Wallet.told_withdrawAlone
  · exact Wallet.honest_sync.told fun _ _ => Wallet.told_sync
  · obtain ⟨htold, hcandid⟩ := Wallet.told_history (Program.yields_trace env w.history s)
    exact ⟨htold, hcandid.classified⟩

end ShieldedWallet
