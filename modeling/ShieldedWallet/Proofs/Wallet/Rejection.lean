import ShieldedWallet.Proofs.Payment.Prepared
import ShieldedWallet.Proofs.History.Passes
import ShieldedWallet.Wallet

/-!
# Refusals of the version

The contract and the relayer may refuse the version that a wallet works with. On its way through the
wallet such a refusal is neither wrapped nor dropped: whatever the wallet was doing then fails with
just this refusal. Only from what keeps a path from being fetched, whatever it is, the wallet
concludes that the account is not on the chain.
-/

namespace ShieldedWallet

open ShieldedWallet.Action

/-- Whether the failure is a refusal of the version, on whatever level it is told. -/
def Failure.IsRejection : Failure → Prop
  | .contractVersion _ | .relayerVersion _ | .eventVersion .. => True
  | .contract (.versionRejected _) | .relayer (.versionRejected _) => True
  | _ => False

/-- The refusals of the version in the answers of the contract and the relayer, as failures of the
wallet. -/
def Trace.rejections (t : Trace) : List Failure :=
  t.filterMap fun
    | ⟨.contract (.path _), _⟩ => none
    | ⟨.contract _, .error (.versionRejected reason)⟩ => some (.contractVersion reason)
    | ⟨.relayer _, .error (.versionRejected reason)⟩ => some (.relayerVersion reason)
    | _ => none

@[simp] theorem Trace.rejections_append (t t' : Trace) :
    Trace.rejections (t ++ t') = t.rejections ++ t'.rejections := List.filterMap_append

theorem Trace.isOutdated_of_mem_rejections {t : Trace} {f : Failure} (h : f ∈ t.rejections) :
    f.isOutdated = true := by
  obtain ⟨⟨q, r⟩, -, hx⟩ := List.mem_filterMap.1 h
  split at hx
  · cases hx
  · cases hx
    rfl
  · cases hx
    rfl
  · cases hx

/-- What was done has failed with each refusal of the version in the trace, and if it has failed with
a refusal, then it is one of those, or an event is of another version. -/
structure Candid (t : Trace) (failure : Option Failure) : Prop where
  surfaces : ∀ f ∈ t.rejections, failure = some f
  origin : ∀ f, failure = some f → f.IsRejection →
    f ∈ t.rejections ∨ ∃ expected found, f = .eventVersion expected found

variable {t t' : Trace} {failure : Option Failure}

theorem candid_of_rejections (ht : t.rejections = [])
    (hf : ∀ f, failure = some f → f.IsRejection → ∃ expected found, f = .eventVersion expected found) :
    Candid t failure where
  surfaces f hf' := by
    rw [ht] at hf'
    cases hf'
  origin f hf' hr := .inr (hf f hf' hr)

theorem Candid.rejections_eq (h : Candid t none) : t.rejections = [] := by
  refine List.eq_nil_iff_forall_not_mem.2 fun f hf => ?_
  cases h.surfaces f hf

/-- What fails in another way can be handled. -/
theorem Candid.handled {f : Failure} (h : Candid t (some f)) (hf : f.isOutdated = false) :
    Candid t none := by
  refine candid_of_rejections (List.eq_nil_iff_forall_not_mem.2 fun f' hf' => ?_) nofun
  have hmem := Trace.isOutdated_of_mem_rejections hf'
  cases h.surfaces f' hf'
  rw [hf] at hmem
  cases hmem

theorem Candid.append (h : Candid t none) (h' : Candid t' failure) : Candid (t ++ t') failure := by
  constructor
  · intro f hf
    rw [Trace.rejections_append, h.rejections_eq, List.nil_append] at hf
    exact h'.surfaces f hf
  · intro f hf hr
    rw [Trace.rejections_append, h.rejections_eq, List.nil_append]
    exact h'.origin f hf hr

/-- What goes on after a failure without asking the contract or the relayer changes nothing. -/
theorem Candid.append_left (h : Candid t failure) (ht : t'.rejections = []) :
    Candid (t ++ t') failure := by
  constructor
  · intro f hf
    rw [Trace.rejections_append, ht, List.append_nil] at hf
    exact h.surfaces f hf
  · intro f hf hr
    rw [Trace.rejections_append, ht, List.append_nil]
    exact h.origin f hf hr

/-- A refusal that is told is the wallet's own. -/
theorem Candid.isRejection_iff (h : Candid t failure) {f : Failure} (hf : failure = some f) :
    f.IsRejection ↔ f.isOutdated = true := by
  constructor
  · intro hr
    rcases h.origin f hf hr with hmem | ⟨expected, found, rfl⟩
    · exact Trace.isOutdated_of_mem_rejections hmem
    · rfl
  · intro ho
    cases f <;> trivial

/-- The failure that a result is. -/
def Except.failure? {α : Type} : Except Failure α → Option Failure
  | .ok _ => none
  | .error f => some f

namespace Action

variable {α β ε : Type}

/-- Whatever is answered, the action is candid about refusals of the version. -/
def Honest (x : Action α) : Prop := ∀ t r, x.run.Yields t r → Candid t (Except.failure? r)

theorem honest_pure (a : α) : Honest (pure a) := by
  intro t r h
  obtain ⟨rfl, rfl⟩ := yields_pure_iff.1 h
  exact candid_of_rejections rfl nofun

theorem honest_throw {f : Failure}
    (hf : ¬ f.IsRejection ∨ ∃ expected found, f = .eventVersion expected found) :
    Honest (throw f : Action α) := by
  intro t r h
  obtain ⟨rfl, rfl⟩ := yields_throw_iff.1 h
  refine candid_of_rejections rfl fun f' hf' hr => ?_
  cases hf'
  exact hf.resolve_left fun hn => hn hr

theorem honest_liftM {x : Except Failure α} (hx : ∀ f, x = .error f → ¬ f.IsRejection) :
    Honest (liftM x : Action α) := by
  intro t r h
  obtain ⟨rfl, rfl⟩ := yields_liftM_iff.1 h
  refine candid_of_rejections rfl fun f hf hr => ?_
  cases r with
  | ok a => cases hf
  | error f' =>
    cases hf
    exact absurd hr (hx _ rfl)

theorem Honest.bind {x : Action α} {f : α → Action β} (hx : Honest x) (hf : ∀ a, Honest (f a)) :
    Honest (x >>= f) := by
  intro t r h
  rcases yields_bind h with ⟨e, he, rfl⟩ | ⟨t₁, t₂, a, rfl, h₁, h₂⟩
  · exact hx _ _ he
  · exact (hx _ _ h₁).append (hf a _ _ h₂)

theorem Honest.ite {c : Prop} [Decidable c] {x y : Action α} (hx : Honest x) (hy : Honest y) :
    Honest (if c then x else y) := by
  split
  · exact hx
  · exact hy

/-! ## Questions -/

/-- A question whose answers do not refuse the version. -/
theorem honest_ofProgram {p : Program surroundings (Except ε α)} {f : ε → Failure}
    (hp : ∀ (t : Trace) r, p.Yields t r → t.rejections = []) (hf : ∀ e, ¬ (f e).IsRejection) :
    Honest (ofProgram f p) := by
  intro t r hr
  obtain ⟨r', h', rfl⟩ := yields_ofProgram_iff.1 hr
  refine candid_of_rejections (hp t r' h') fun f' hf' hrejection => ?_
  cases r' with
  | ok a => cases hf'
  | error e =>
    cases hf'
    exact absurd hrejection (hf e)

theorem honest_proverOr {f : ProverFailure → Failure} (hf : ∀ e, ¬ (f e).IsRejection)
    (q : ProverQuery) : Honest (ofProgram f (Query.prover q).program) :=
  honest_ofProgram (fun _ _ h => by rw [Query.yields_program_iff.1 h]; rfl) hf

theorem honest_prover (q : ProverQuery) : Honest (prover q) :=
  honest_proverOr (f := .prover) (fun _ h => h) q

theorem honest_load (key : String) : Honest (load key) :=
  honest_ofProgram (fun _ _ h => by rw [Query.yields_program_iff.1 h]; rfl) fun _ h => h

theorem honest_store (key : String) (item : Bytes) : Honest (store key item) :=
  honest_ofProgram (fun _ _ h => by rw [Query.yields_program_iff.1 h]; rfl) fun _ h => h

theorem honest_submit (m : Movement) (tx : TransactionRequest) : Honest (submit m tx) :=
  honest_ofProgram (fun _ _ h => by rw [Query.yields_program_iff.1 h]; rfl) fun _ h => h

theorem honest_path {f : ContractFailure → Failure} (hf : ∀ e, ¬ (f e).IsRejection)
    (index : UInt64) : Honest (contractOr f (.path index)) :=
  honest_ofProgram (fun _ _ h => by rw [Query.yields_program_iff.1 h]; rfl) hf

theorem honest_contractAddress : Honest contractAddress := by
  intro t r h
  obtain ⟨t₁, t₂, a, rfl, h₁, h₂⟩ := Program.yields_bind_iff.1 h
  obtain ⟨rfl, rfl⟩ := Program.yields_done_iff.1 h₂
  rw [Query.yields_program_iff.1 h₁]
  exact candid_of_rejections rfl nofun

theorem honest_notify (n : Notice) : Honest (notify n) := by
  intro t r h
  obtain ⟨rfl, rfl⟩ := yields_notify_iff.1 h
  exact candid_of_rejections rfl nofun

/-- A refusal that is read as just this refusal. -/
theorem candid_singleton {x : Exchange surroundings} {f : Failure}
    (hx : Trace.rejections [x] = [f]) : Candid [x] (some f) where
  surfaces f' hf' := by
    rw [hx, List.mem_singleton] at hf'
    rw [hf']
  origin f' hf' _ := by
    cases hf'
    exact .inl (by simp [hx])

theorem honest_contractOr {f : ContractFailure → Failure}
    (hrejected : ∀ reason, f (.versionRejected reason) = .contractVersion reason)
    (hother : ∀ e, (f e).IsRejection → ∃ reason, e = .versionRejected reason) {q : ContractQuery}
    (hq : ∀ index, q ≠ .path index) : Honest (contractOr f q) := by
  intro t r hr
  obtain ⟨r', h', rfl⟩ := yields_ofProgram_iff.1 hr
  obtain rfl := Query.yields_program_iff.1 h'
  cases r' with
  | ok a => exact candid_of_rejections (by cases q <;> rfl) nofun
  | error e =>
    cases e with
    | versionRejected reason =>
      show Candid _ (some (f (.versionRejected reason)))
      rw [hrejected]
      refine candid_singleton ?_
      cases q with
      | path index => exact absurd rfl (hq index)
      | _ => rfl
    | _ =>
      refine candid_of_rejections (by cases q <;> rfl) fun f' hf' hrejection => ?_
      cases hf'
      obtain ⟨reason, he⟩ := hother _ hrejection
      cases he

theorem honest_relayerOr {f : RelayerFailure → Failure}
    (hrejected : ∀ reason, f (.versionRejected reason) = .relayerVersion reason)
    (hother : ∀ e, (f e).IsRejection → ∃ reason, e = .versionRejected reason) (q : RelayerQuery) :
    Honest (relayerOr f q) := by
  intro t r hr
  obtain ⟨r', h', rfl⟩ := yields_ofProgram_iff.1 hr
  obtain rfl := Query.yields_program_iff.1 h'
  cases r' with
  | ok a => exact candid_of_rejections rfl nofun
  | error e =>
    cases e with
    | versionRejected reason =>
      show Candid _ (some (f (.versionRejected reason)))
      rw [hrejected]
      exact candid_singleton rfl
    | _ =>
      refine candid_of_rejections rfl fun f' hf' hrejection => ?_
      cases hf'
      obtain ⟨reason, he⟩ := hother _ hrejection
      cases he

theorem honest_contract {q : ContractQuery} (hq : ∀ index, q ≠ .path index) : Honest (contract q) :=
  honest_contractOr (fun _ => rfl) (fun e he => by cases e <;> first | exact ⟨_, rfl⟩ | exact he.elim) hq

/-! ## What surrounds an action -/

theorem Honest.reporting {x : Action α} (hx : Honest x) (stage : Stage) (operation : Operation) :
    Honest (reporting stage operation x) := by
  intro t r h
  obtain ⟨t₁, t₂, r', rfl, h₁, h₂⟩ := Program.yields_bind_iff.1 h
  cases r' with
  | ok a =>
    obtain ⟨rfl, rfl⟩ := Program.yields_done_iff.1 h₂
    exact (hx _ _ h₁).append_left rfl
  | error e =>
    obtain ⟨t₃, t₄, u, rfl, h₃, h₄⟩ := Program.yields_bind_iff.1 h₂
    obtain ⟨rfl, rfl⟩ := Program.yields_done_iff.1 h₄
    rw [Query.yields_program_iff.1 h₃]
    exact (hx _ _ h₁).append_left rfl

theorem Honest.exclusive {x : Action α} (hx : Honest x) : Honest (exclusive x) := by
  intro t r h
  obtain ⟨t', rfl, h'⟩ := yields_exclusive_iff.1 h
  have hacquire : Candid [⟨.acquire, ()⟩] none := candid_of_rejections rfl nofun
  have hrelease : Trace.rejections [⟨.release, ()⟩] = [] := rfl
  exact hacquire.append ((hx _ _ h').append_left hrelease)

end Action

/-! ## The parts of an operation -/

variable {version expected : ContractVersion} {m : Movement} {a : Account} {amount : UInt256}

open ShieldedWallet.Action

theorem Note.honest_next? : Honest (Note.next? version m a amount) := by
  unfold Note.next?
  split
  · exact honest_pure _
  · refine (honest_prover _).bind fun s => Honest.bind ?_ fun note => ?_
    · refine Honest.bind ?_ fun h => honest_prover _
      exact (honest_prover _).bind fun k => honest_prover _
    · exact Honest.ite (honest_throw (.inl nofun)) (honest_pure _)

theorem Holding.honest_noteNonce (h : Holding) : Honest (liftM h.noteNonce : Action UInt64) := by
  refine honest_liftM fun f hf => ?_
  unfold Holding.noteNonce at hf
  split at hf
  · cases hf
  · cases hf
    exact fun h => h

namespace NoteEvent

theorem honest_claimed? (e : NoteEvent) : Honest (e.claimed? version a) := by
  intro t r h
  by_cases ha : e.movement.appliesTo a = true
  · rcases yields_claimed?_cases ha h with ⟨-, hnext⟩ | ⟨rfl, hnext⟩
    · exact Note.honest_next? t r hnext
    · exact (Note.honest_next? _ _ hnext).handled rfl
  · unfold claimed? at h
    rw [if_neg ha] at h
    exact honest_pure _ t r h

theorem honest_continuing (es : List NoteEvent) : Honest (continuing version a es) := by
  induction es with
  | nil => exact honest_pure _
  | cons e es ih =>
    exact (honest_claimed? e).bind fun next => ih.bind fun rest => honest_pure _

theorem honest_apply (e : NoteEvent) : Honest (e.apply version a) := by
  refine (honest_claimed? e).bind fun next => ?_
  split
  · exact Honest.ite (honest_pure _) (honest_throw (.inl nofun))
  · exact honest_throw (.inl nofun)

end NoteEvent

namespace History

theorem honest_select (block : UInt64) (es : List NoteEvent) :
    Honest (select version a block es) := by
  refine (NoteEvent.honest_continuing es).bind fun found => ?_
  split
  · exact Honest.ite (honest_pure _) (honest_throw (.inr ⟨_, _, rfl⟩))
  · exact honest_throw (.inl nofun)

theorem honest_next? : Honest (next? version a) := by
  have hkey : Honest (SearchKey.ofAccount a) := by
    cases a with
    | unopened id => exact honest_pure _
    | opened h =>
      refine h.honest_noteNonce.bind fun nonce => ?_
      exact (honest_prover _).bind fun s => honest_pure _
  refine hkey.bind fun key => (honest_prover _).bind fun h => ?_
  refine Honest.bind (honest_contract nofun) fun found => ?_
  cases found with
  | none => exact honest_pure _
  | some block =>
    refine Honest.bind (honest_contract nofun) fun es => (honest_select block es).bind fun e => ?_
    exact (NoteEvent.honest_apply e).bind fun b => honest_pure _

variable {r : Register}

theorem honest_load : Honest r.load := by
  refine (Action.honest_load r.key).bind fun item => honest_liftM fun f hf => ?_
  unfold Register.read at hf
  split at hf
  · cases hf
  · split at hf
    · cases hf
    · cases hf
      exact fun h => h

theorem honest_save : Honest (r.save a) := by
  unfold Register.save
  split
  · exact Honest.bind (honest_throw (.inl nofun)) fun _ => honest_store _ _
  · exact honest_store _ _

theorem honest_advance (steps applied : Nat) : Honest (advance version r steps applied a) := by
  induction steps generalizing applied a with
  | zero => exact honest_pure _
  | succ steps ih =>
    refine honest_next?.bind fun found => ?_
    cases found with
    | none => exact honest_pure _
    | some found => exact honest_save.bind fun _ => (honest_notify _).bind fun _ => ih _

theorem honest_pass : Honest (pass version r) :=
  (honest_load.bind fun _ => honest_advance _ _).exclusive

/-- What cuts off a replay is told candidly. -/
theorem candid_replayFrom {steps : Nat} {t : Trace} {res : List Transaction × Option Failure}
    (h : (replayFrom version steps a).Yields t res) : Candid t res.2 := by
  induction steps generalizing a t res with
  | zero =>
    obtain ⟨rfl, rfl⟩ := Program.yields_done_iff.1 h
    exact candid_of_rejections rfl nofun
  | succ steps ih =>
    obtain ⟨t₁, t₂, found, rfl, h₁, h₂⟩ := Program.yields_bind_iff.1 h
    have hstep := honest_next? _ _ h₁
    cases found with
    | error f =>
      obtain ⟨rfl, rfl⟩ := Program.yields_done_iff.1 h₂
      exact hstep.append_left rfl
    | ok found =>
      cases found with
      | none =>
        obtain ⟨rfl, rfl⟩ := Program.yields_done_iff.1 h₂
        exact hstep.append_left rfl
      | some found =>
        obtain ⟨t₃, t₄, rest, rfl, h₃, h₄⟩ := Program.yields_bind_iff.1 h₂
        obtain ⟨rfl, rfl⟩ := Program.yields_done_iff.1 h₄
        exact hstep.append ((ih h₃).append_left rfl)

end History

/-! ## Preparing and sending -/

theorem Failure.not_isRejection_whileProving (cause : ProverFailure) :
    ¬ (Failure.whileProving m (.prover cause)).IsRejection := fun h => h

theorem Note.honest_onChainPath : Honest (Note.onChainPath a) := by
  unfold Note.onChainPath
  split
  · exact honest_throw (.inl nofun)
  · split
    · exact honest_throw (.inl nofun)
    · refine Honest.bind (honest_path ?_ _) fun path => ?_
      · exact fun _ h => h
      · exact Honest.ite (honest_pure _) (honest_throw (.inl nofun))

theorem Note.honest_splitPath (path : List Scalar) : Honest (Note.splitPath path) := by
  refine (honest_prover _).bind fun height => (honest_prover _).bind fun arity => ?_
  by_cases hlen : path.length ≠ height * arity + 1
  · rw [if_pos hlen]
    refine Honest.bind (honest_throw (.inl nofun)) fun _ => ?_
    cases path.getLast? with
    | none => exact honest_throw (.inl nofun)
    | some root => exact honest_pure _
  · rw [if_neg hlen]
    cases path.getLast? with
    | none => exact honest_throw (.inl nofun)
    | some root => exact honest_pure _

theorem Spending.honest_gather {impossible : Failure} (hi : ¬ impossible.IsRejection) :
    Honest (Spending.gather version m a amount impossible) := by
  refine Note.honest_next?.bind fun next => ?_
  split
  · exact honest_throw (.inl hi)
  · refine Note.honest_onChainPath.bind fun r => (Note.honest_splitPath _).bind fun p => ?_
    refine (Holding.honest_noteNonce _).bind fun nonce => (honest_prover _).bind fun spent => ?_
    exact (honest_prover _).bind fun created => honest_pure _

theorem Spending.honest_statement (s : Spending) : Honest s.statement :=
  Honest.bind (honest_prover _) fun _ => honest_pure _

namespace Calldata

theorem honest_certify {w : Witness m} {statement : Action (Statement m)} (hs : Honest statement) :
    Honest (certify m w statement) := by
  refine (honest_proverOr Failure.not_isRejection_whileProving _).bind fun r => hs.bind fun stated => ?_
  have hrest : Honest (do
      let valid ← prover (.verify m r.1 stated)
      if valid then return (stated, r.1) else throw (.proofRejected m) :
        Action (Statement m × Bytes)) := by
    refine (honest_prover _).bind fun valid => ?_
    exact Honest.ite (honest_pure _) (honest_throw (.inl nofun))
  split
  · exact Honest.bind (honest_throw (.inl nofun)) fun _ => hrest
  · exact hrest

theorem honest_send (c : Calldata m) (sender : Address) : Honest (c.send sender) := by
  refine Honest.bind ?_ fun data => honest_contractAddress.bind fun target => honest_submit _ _
  refine honest_contractOr (fun _ => rfl) (fun e he => ?_) nofun
  cases e <;> first | exact ⟨_, rfl⟩ | exact he.elim

theorem honest_relay (c : Calldata .withdrawal) : Honest c.relay := by
  refine honest_relayerOr (fun _ => rfl) (fun e he => ?_) _
  cases e <;> first | exact ⟨_, rfl⟩ | exact he.elim

end Calldata

theorem Opening.honest_prepare : Honest (Opening.prepare version a amount expected) := by
  refine (honest_prover _).bind fun s => ?_
  refine (Calldata.honest_certify ?_).bind fun r => honest_pure _
  refine Note.honest_next?.bind fun next => ?_
  split
  · exact honest_throw (.inl nofun)
  · exact Honest.bind (honest_prover _) fun h => honest_pure _

theorem Deposit.honest_prepare : Honest (Deposit.prepare version a amount expected) := by
  refine Honest.bind (Spending.honest_gather nofun) fun s => ?_
  exact (Calldata.honest_certify s.honest_statement).bind fun r => honest_pure _

namespace Withdrawal

theorem honest_check (fee : UInt256) : Honest (liftM (check a amount fee) : Action Unit) := by
  refine honest_liftM fun f hf => ?_
  unfold check at hf
  split at hf
  · cases hf
    exact fun h => h
  · split at hf
    · cases hf
      exact fun h => h
    · cases hf

theorem honest_prepare {payout : Payout} :
    Honest (Withdrawal.prepare version a amount payout expected) := by
  refine (honest_check _).bind fun _ => Honest.bind (Spending.honest_gather nofun) fun s => ?_
  refine (Calldata.honest_certify ?_).bind fun r => honest_pure _
  exact s.honest_statement.bind fun st => honest_pure _

end Withdrawal

end ShieldedWallet
