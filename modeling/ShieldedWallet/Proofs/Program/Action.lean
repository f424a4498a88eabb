import ShieldedWallet.Action
import ShieldedWallet.Proofs.Program.Trace

/-!
# Traces of actions

The laws of traces for programs that may fail: a failing part ends a sequence, and each question of
the wallet is a trace of one exchange.
-/

namespace ShieldedWallet

/-- The exchanges of a wallet with its surroundings. -/
abbrev Trace := List (Exchange surroundings)

@[simp] theorem Query.yields_program_iff {q : Query} {t : Trace} {r : q.Answer} :
    q.program.Yields t r ↔ t = [⟨q, r⟩] := by
  rw [Query.program, Program.query, Program.yields_ask_iff]
  constructor
  · rintro ⟨r', t', rfl, h⟩
    obtain ⟨rfl, rfl⟩ := Program.yields_done_iff.1 h
    rfl
  · rintro rfl
    exact ⟨r, [], rfl, by simp⟩

theorem Query.asks_program_iff {q q' : Query} {t : Trace} :
    q.program.Asks t q' ↔ t = [] ∧ q' = q := by
  rw [Query.program, Program.query, Program.asks_ask_iff]
  simp

theorem Query.confined_program {K : Query → Prop} {q : Query} (hq : K q) :
    q.program.Confined (I := surroundings) K :=
  Program.confined_ask hq fun _ => Program.confined_done _

namespace Action

variable {α β ε : Type} {t : Trace} {K : Query → Prop}

theorem run_bind (x : Action α) (f : α → Action β) :
    (x >>= f).run = x.run.bind fun
      | .ok a => (f a).run
      | .error e => .done (.error e) := by
  show x.run.bind (ExceptT.bindCont f) = _
  congr 1
  funext r
  cases r <;> rfl

/-! ## Sequences -/

/-- A sequence fails with its first part, or goes on from its result. -/
theorem yields_bind {x : Action α} {f : α → Action β} {r : Except Failure β}
    (h : (x >>= f).run.Yields t r) :
    (∃ e, x.run.Yields t (.error e) ∧ r = .error e) ∨
      ∃ t₁ t₂ a, t = t₁ ++ t₂ ∧ x.run.Yields t₁ (.ok a) ∧ (f a).run.Yields t₂ r := by
  rw [run_bind, Program.yields_bind_iff] at h
  obtain ⟨t₁, t₂, r₁, rfl, h₁, h₂⟩ := h
  cases r₁ with
  | error e =>
    obtain ⟨rfl, rfl⟩ := Program.yields_done_iff.1 h₂
    exact .inl ⟨e, by simpa using h₁, rfl⟩
  | ok a => exact .inr ⟨t₁, t₂, a, rfl, h₁, h₂⟩

theorem yields_bind_ok {x : Action α} {f : α → Action β} {b : β}
    (h : (x >>= f).run.Yields t (.ok b)) :
    ∃ t₁ t₂ a, t = t₁ ++ t₂ ∧ x.run.Yields t₁ (.ok a) ∧ (f a).run.Yields t₂ (.ok b) := by
  rcases yields_bind h with ⟨e, -, he⟩ | h
  · cases he
  · exact h

theorem asks_bind {x : Action α} {f : α → Action β} {q : Query} (h : (x >>= f).run.Asks t q) :
    x.run.Asks t q ∨
      ∃ t₁ t₂ a, t = t₁ ++ t₂ ∧ x.run.Yields t₁ (.ok a) ∧ (f a).run.Asks t₂ q := by
  rw [run_bind] at h
  rcases Program.asks_bind_iff.1 h with h | ⟨t₁, t₂, r₁, rfl, h₁, h₂⟩
  · exact .inl h
  · cases r₁ with
    | error e => exact absurd h₂ (by simp)
    | ok a => exact .inr ⟨t₁, t₂, a, rfl, h₁, h₂⟩

theorem confined_bind {x : Action α} {f : α → Action β} (hx : x.run.Confined K)
    (hf : ∀ a, (f a).run.Confined K) : (x >>= f).run.Confined K := by
  rw [run_bind]
  refine hx.bind fun r => ?_
  cases r with
  | error e => exact Program.confined_done _
  | ok a => exact hf a

theorem run_tryCatch (x : Action α) (g : Failure → Action α) :
    (tryCatch x g).run = x.run.bind fun
      | .ok a => .done (.ok a)
      | .error e => (g e).run := by
  show x.run.bind _ = _
  congr 1
  funext r
  cases r <;> rfl

/-- What fails goes on as its failure is handled. -/
theorem yields_tryCatch {x : Action α} {g : Failure → Action α} {r : Except Failure α}
    (h : (tryCatch x g).run.Yields t r) :
    (∃ a, x.run.Yields t (.ok a) ∧ r = .ok a) ∨
      ∃ t₁ t₂ e, t = t₁ ++ t₂ ∧ x.run.Yields t₁ (.error e) ∧ (g e).run.Yields t₂ r := by
  rw [run_tryCatch, Program.yields_bind_iff] at h
  obtain ⟨t₁, t₂, r₁, rfl, h₁, h₂⟩ := h
  cases r₁ with
  | ok a =>
    obtain ⟨rfl, rfl⟩ := Program.yields_done_iff.1 h₂
    exact .inl ⟨a, by simpa using h₁, rfl⟩
  | error e => exact .inr ⟨t₁, t₂, e, rfl, h₁, h₂⟩

theorem confined_tryCatch {x : Action α} {g : Failure → Action α} (hx : x.run.Confined K)
    (hg : ∀ e, (g e).run.Confined K) : (tryCatch x g).run.Confined K := by
  rw [run_tryCatch]
  refine hx.bind fun r => ?_
  cases r with
  | error e => exact hg e
  | ok a => exact Program.confined_done _

@[simp] theorem yields_pure_iff {a : α} {r : Except Failure α} :
    (pure a : Action α).run.Yields t r ↔ t = [] ∧ r = .ok a := Program.yields_done_iff

@[simp] theorem yields_throw_iff {e : Failure} {r : Except Failure α} :
    (throw e : Action α).run.Yields t r ↔ t = [] ∧ r = .error e := Program.yields_done_iff

@[simp] theorem yields_liftM_iff {x : Except Failure α} {r : Except Failure α} :
    (liftM x : Action α).run.Yields t r ↔ t = [] ∧ r = x := Program.yields_done_iff

@[simp] theorem asks_pure_iff {a : α} {q : Query} :
    (pure a : Action α).run.Asks t q ↔ False := Program.asks_done_iff

@[simp] theorem asks_throw_iff {e : Failure} {q : Query} :
    (throw e : Action α).run.Asks t q ↔ False := Program.asks_done_iff

@[simp] theorem asks_liftM_iff {x : Except Failure α} {q : Query} :
    (liftM x : Action α).run.Asks t q ↔ False := Program.asks_done_iff

theorem confined_pure (a : α) : (pure a : Action α).run.Confined K := Program.confined_done _

theorem confined_throw (e : Failure) : (throw e : Action α).run.Confined K :=
  Program.confined_done _

theorem confined_liftM (x : Except Failure α) : (liftM x : Action α).run.Confined K :=
  Program.confined_done _

/-! ## Questions -/

/-- A question succeeds with its answer and fails with what its failure is read as. -/
theorem yields_ofProgram_iff {f : ε → Failure} {p : Program surroundings (Except ε α)}
    {r : Except Failure α} :
    (ofProgram f p).run.Yields t r ↔ ∃ r', p.Yields t r' ∧ r = r'.mapError f := by
  constructor
  · intro h
    obtain ⟨t₁, t₂, r', rfl, h₁, h₂⟩ := Program.yields_bind_iff.1 h
    obtain ⟨rfl, rfl⟩ := Program.yields_done_iff.1 h₂
    exact ⟨r', by simpa using h₁, rfl⟩
  · rintro ⟨r', h, rfl⟩
    exact Program.yields_bind_iff.2 ⟨t, [], r', by simp, h, by simp⟩

theorem yields_ofProgram_ok_iff {f : ε → Failure} {p : Program surroundings (Except ε α)} {a : α} :
    (ofProgram f p).run.Yields t (.ok a) ↔ p.Yields t (.ok a) := by
  rw [yields_ofProgram_iff]
  constructor
  · rintro ⟨r', h, hr⟩
    cases r' with
    | error e => cases hr
    | ok a' => cases hr; exact h
  · intro h
    exact ⟨_, h, rfl⟩

theorem asks_ofProgram_iff {f : ε → Failure} {p : Program surroundings (Except ε α)} {q : Query} :
    (ofProgram f p).run.Asks t q ↔ p.Asks t q := by
  constructor
  · intro h
    rcases Program.asks_bind_iff.1 h with h | ⟨_, _, _, _, _, h⟩
    · exact h
    · exact absurd h (by simp)
  · intro h
    exact Program.asks_bind_iff.2 (.inl h)

theorem confined_ofProgram {f : ε → Failure} {p : Program surroundings (Except ε α)}
    (hp : p.Confined K) : (ofProgram f p).run.Confined K :=
  fun t q h => hp t q (asks_ofProgram_iff.1 h)

@[simp] theorem yields_prover_ok_iff {q : ProverQuery} {a : q.Result} :
    (prover q).run.Yields t (.ok a) ↔ t = [⟨.prover q, .ok a⟩] :=
  yields_ofProgram_ok_iff.trans Query.yields_program_iff

@[simp] theorem yields_contract_ok_iff {q : ContractQuery} {a : q.Result} :
    (contract q).run.Yields t (.ok a) ↔ t = [⟨.contract q, .ok a⟩] :=
  yields_ofProgram_ok_iff.trans Query.yields_program_iff

@[simp] theorem yields_load_ok_iff {key : String} {item : Option Bytes} :
    (load key).run.Yields t (.ok item) ↔ t = [⟨.load key, .ok item⟩] :=
  yields_ofProgram_ok_iff.trans Query.yields_program_iff

theorem confined_prover {q : ProverQuery} (hq : K (.prover q)) : (prover q).run.Confined K :=
  confined_ofProgram (Query.confined_program hq)

theorem confined_contractOr {f : ContractFailure → Failure} {q : ContractQuery}
    (hq : K (.contract q)) : (contractOr f q).run.Confined K :=
  confined_ofProgram (Query.confined_program hq)

theorem confined_contract {q : ContractQuery} (hq : K (.contract q)) :
    (contract q).run.Confined K := confined_contractOr hq

/-- Telling the owner something never fails. -/
@[simp] theorem yields_notify_iff {n : Notice} {r : Except Failure Unit} :
    (notify n).run.Yields t r ↔ t = [⟨.notify n, ()⟩] ∧ r = .ok () := by
  constructor
  · intro h
    obtain ⟨t₁, t₂, u, rfl, h₁, h₂⟩ := Program.yields_bind_iff.1 h
    obtain ⟨rfl, rfl⟩ := Program.yields_done_iff.1 h₂
    obtain rfl := Query.yields_program_iff.1 h₁
    exact ⟨rfl, rfl⟩
  · rintro ⟨rfl, rfl⟩
    exact Program.yields_bind_iff.2 ⟨_, [], (), rfl, Query.yields_program_iff.2 rfl, by simp⟩

theorem confined_load {key : String} (hq : K (.load key)) : (load key).run.Confined K :=
  confined_ofProgram (Query.confined_program hq)

theorem confined_store {key : String} {item : Bytes} (hq : K (.store key item)) :
    (store key item).run.Confined K :=
  confined_ofProgram (Query.confined_program hq)

theorem confined_notify {n : Notice} (hq : K (.notify n)) : (notify n).run.Confined K :=
  (Query.confined_program hq).bind fun _ => Program.confined_done _

theorem confined_reporting {stage : Stage} {operation : Operation} {x : Action α}
    (hn : ∀ e, K (.notify (.ofFailure e stage operation))) (hx : x.run.Confined K) :
    (reporting stage operation x).run.Confined K := by
  refine hx.bind fun r => ?_
  cases r with
  | ok a => exact Program.confined_done _
  | error e => exact (Query.confined_program (hn _)).bind fun _ => Program.confined_done _

theorem confined_exclusive {x : Action α} (ha : K .acquire) (hr : K .release)
    (hx : x.run.Confined K) : (exclusive x).run.Confined K := by
  refine (Query.confined_program ha).bind fun _ => hx.bind fun r => ?_
  exact (Query.confined_program hr).bind fun _ => Program.confined_done _

/-! ## Failures of the prover -/

/-- Every failure of `x` is one that the prover has answered. -/
def FailsByProver (x : Action α) : Prop :=
  ∀ t failure, x.run.Yields t (.error failure) →
    ∃ q cause, (⟨.prover q, .error cause⟩ : Exchange surroundings) ∈ t ∧ failure = .prover cause

theorem failsByProver_pure (a : α) : FailsByProver (pure a) := by
  intro t failure h
  cases (yields_pure_iff.1 h).2

theorem failsByProver_prover (q : ProverQuery) : FailsByProver (prover q) := by
  intro t failure h
  obtain ⟨r, hr, he⟩ := yields_ofProgram_iff.1 h
  obtain rfl := Query.yields_program_iff.1 hr
  cases r with
  | ok r => cases he
  | error cause =>
    cases he
    exact ⟨q, cause, List.mem_cons_self, rfl⟩

theorem FailsByProver.bind {x : Action α} {f : α → Action β} (hx : x.FailsByProver)
    (hf : ∀ a, (f a).FailsByProver) : FailsByProver (x >>= f) := by
  intro t failure h
  rcases yields_bind h with ⟨failure', h', he⟩ | ⟨t₁, t₂, a, rfl, -, h₂⟩
  · cases he
    exact hx t failure h'
  · obtain ⟨q, cause, hmem, he⟩ := hf a t₂ failure h₂
    exact ⟨q, cause, List.mem_append_right _ hmem, he⟩

/-! ## Runs -/

variable {σ : Type} {env : Environment surroundings σ} {s s' : σ}

theorem run_bind_ok {x : Action α} {f : α → Action β} {a : α}
    (h : x.run.run env s = (.ok a, s')) : (x >>= f).run.run env s = (f a).run.run env s' := by
  rw [run_bind, Program.run_bind, h]

theorem run_bind_error {x : Action α} {f : α → Action β} {e : Failure}
    (h : x.run.run env s = (.error e, s')) : (x >>= f).run.run env s = (.error e, s') := by
  rw [run_bind, Program.run_bind, h]
  rfl

theorem trace_bind_ok {x : Action α} {f : α → Action β} {a : α}
    (h : x.run.run env s = (.ok a, s')) :
    (x >>= f).run.trace env s = x.run.trace env s ++ (f a).run.trace env s' := by
  rw [run_bind, Program.trace_bind, h]

theorem trace_bind_error {x : Action α} {f : α → Action β} {e : Failure}
    (h : x.run.run env s = (.error e, s')) : (x >>= f).run.trace env s = x.run.trace env s := by
  rw [run_bind, Program.trace_bind, h]
  exact List.append_nil _

/-- How a sequence goes on depends only on how its first part has ended. -/
theorem run_bind_congr {x y : Action α} (f : α → Action β) {s₁ s₂ : σ}
    (h : x.run.run env s₁ = y.run.run env s₂) :
    (x >>= f).run.run env s₁ = (y >>= f).run.run env s₂ := by
  rw [run_bind, run_bind, Program.run_bind, Program.run_bind, h]

/-- What is done with the result alone changes nothing else. -/
theorem run_bind_pure (x : Action α) (f : α → β) :
    (x >>= fun a => pure (f a)).run.run env s =
      ((x.run.run env s).1.map f, (x.run.run env s).2) := by
  rw [run_bind, Program.run_bind]
  cases (x.run.run env s).1 <;> rfl

theorem trace_bind_pure (x : Action α) (f : α → β) :
    (x >>= fun a => pure (f a)).run.trace env s = x.run.trace env s := by
  rw [run_bind, Program.trace_bind]
  cases (x.run.run env s).1 <;> exact List.append_nil _

theorem run_ofProgram (f : ε → Failure) (p : Program surroundings (Except ε α)) :
    (ofProgram f p).run.run env s = ((p.run env s).1.mapError f, (p.run env s).2) :=
  Program.run_bind env p (fun r => .done (r.mapError f)) s

theorem trace_ofProgram (f : ε → Failure) (p : Program surroundings (Except ε α)) :
    (ofProgram f p).run.trace env s = p.trace env s :=
  (Program.trace_bind env p (fun r => .done (r.mapError f)) s).trans (List.append_nil _)

theorem run_ofProgram_ok {f : ε → Failure} {p : Program surroundings (Except ε α)} {a : α}
    (h : p.run env s = (.ok a, s')) : (ofProgram f p).run.run env s = (.ok a, s') := by
  rw [run_ofProgram, h]
  rfl

theorem run_ofProgram_error {f : ε → Failure} {p : Program surroundings (Except ε α)} {e : ε}
    (h : p.run env s = (.error e, s')) : (ofProgram f p).run.run env s = (.error (f e), s') := by
  rw [run_ofProgram, h]
  rfl

/-- What succeeds is not told. -/
theorem run_reporting_ok (stage : Stage) (operation : Operation) {x : Action α} {a : α}
    (h : x.run.run env s = (.ok a, s')) :
    (reporting stage operation x).run.run env s = (.ok a, s') ∧
      (reporting stage operation x).run.trace env s = x.run.trace env s := by
  constructor
  · show (x.run.bind _).run env s = _
    rw [Program.run_bind, h]
    rfl
  · show (x.run.bind _).trace env s = _
    rw [Program.trace_bind, h]
    exact List.append_nil _

/-- A failure is told. -/
theorem run_reporting_error (stage : Stage) (operation : Operation) {x : Action α} {e : Failure}
    (h : x.run.run env s = (.error e, s')) : (reporting stage operation x).run.run env s =
      (.error e, (env (.notify (.ofFailure e stage operation)) s').2) := by
  show (x.run.bind _).run env s = _
  rw [Program.run_bind, h]
  rfl

theorem run_reporting_congr {stage : Stage} {operation : Operation} {x y : Action α} {s₁ s₂ : σ}
    (h : x.run.run env s₁ = y.run.run env s₂) :
    (reporting stage operation x).run.run env s₁ = (reporting stage operation y).run.run env s₂ := by
  show (x.run.bind _).run env s₁ = (y.run.bind _).run env s₂
  rw [Program.run_bind, Program.run_bind, h]

/-! ## Answers of an oracle -/

variable {o : Oracle surroundings}

theorem eval_bind_ok {x : Action α} {f : α → Action β} {a : α} (h : x.run.eval o = .ok a) :
    (x >>= f).run.eval o = (f a).run.eval o := by
  rw [run_bind, Program.eval_bind, h]

@[simp] theorem eval_pure (a : α) : (pure a : Action α).run.eval o = .ok a := rfl

@[simp] theorem eval_liftM (x : Except Failure α) : (liftM x : Action α).run.eval o = x := rfl

theorem eval_bind_error {x : Action α} {f : α → Action β} {e : Failure}
    (h : x.run.eval o = .error e) : (x >>= f).run.eval o = .error e := by
  rw [run_bind, Program.eval_bind, h]
  rfl

theorem eval_tryCatch_ok {x : Action α} {g : Failure → Action α} {a : α}
    (h : x.run.eval o = .ok a) : (tryCatch x g).run.eval o = .ok a := by
  rw [run_tryCatch, Program.eval_bind, h]
  rfl

theorem eval_ofProgram (f : ε → Failure) (p : Program surroundings (Except ε α)) :
    (ofProgram f p).run.eval o = (p.eval o).mapError f :=
  Program.eval_bind o p fun r => .done (r.mapError f)

theorem eval_ofProgram_ok {f : ε → Failure} {p : Program surroundings (Except ε α)} {a : α}
    (h : p.eval o = .ok a) : (ofProgram f p).run.eval o = .ok a := by
  rw [eval_ofProgram, h]
  rfl

theorem eval_ofProgram_error {f : ε → Failure} {p : Program surroundings (Except ε α)} {e : ε}
    (h : p.eval o = .error e) : (ofProgram f p).run.eval o = .error (f e) := by
  rw [eval_ofProgram, h]
  rfl

theorem eval_prover_ok {q : ProverQuery} {a : q.Result} (h : o (.prover q) = .ok a) :
    (prover q).run.eval o = .ok a := eval_ofProgram_ok h

theorem eval_contractOr_ok {f : ContractFailure → Failure} {q : ContractQuery} {a : q.Result}
    (h : o (.contract q) = .ok a) : (contractOr f q).run.eval o = .ok a := eval_ofProgram_ok h

theorem eval_contract_ok {q : ContractQuery} {a : q.Result} (h : o (.contract q) = .ok a) :
    (contract q).run.eval o = .ok a := eval_contractOr_ok h

/-- Telling the owner changes no result. -/
theorem eval_reporting (stage : Stage) (operation : Operation) (x : Action α) :
    (reporting stage operation x).run.eval o = x.run.eval o := by
  show (x.run.bind _).eval o = _
  rw [Program.eval_bind]
  cases x.run.eval o <;> rfl

end Action

end ShieldedWallet
