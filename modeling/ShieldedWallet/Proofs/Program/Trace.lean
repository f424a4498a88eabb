import ShieldedWallet.Program

/-!
# Traces of programs

What a program does can be said without an environment: after some questions have got their answers,
it asks another question or ends. `p.Reaches t p'` says that the exchanges `t` lead from `p` to `p'`;
`p.Yields t a` and `p.Asks t q` say that they lead to the end with `a` and to the question `q`. Every
run in an environment has a trace, and whatever holds of all traces holds of all runs.
-/

namespace ShieldedWallet

/-- A question together with the answer it got. -/
structure Exchange (I : Interface) where
  /-- The question. -/
  query : I.Query
  answer : I.Answer query

/-- A party that answers every question without changing, so that the same question always gets the
same answer. -/
abbrev Oracle (I : Interface) := (q : I.Query) → I.Answer q

namespace Program

variable {I : Interface} {α β σ : Type}

/-- The exchanges `t` lead from `p` to `p'`. -/
inductive Reaches : Program I α → List (Exchange I) → Program I α → Prop where
  /-- Nothing has been asked. -/
  | refl (p : Program I α) : Reaches p [] p
  /-- The first question has been answered. -/
  | ask {q : I.Query} {next : I.Answer q → Program I α} {r : I.Answer q} {t : List (Exchange I)}
      {p' : Program I α} (h : Reaches (next r) t p') : Reaches (.ask q next) (⟨q, r⟩ :: t) p'

/-- After the exchanges `t` the program ends with `a`. -/
def Yields (p : Program I α) (t : List (Exchange I)) (a : α) : Prop := p.Reaches t (.done a)

/-- After the exchanges `t` the program asks `q`. -/
def Asks (p : Program I α) (t : List (Exchange I)) (q : I.Query) : Prop :=
  ∃ next, p.Reaches t (.ask q next)

/-! ## Following a program -/

theorem Reaches.trans {p p' p'' : Program I α} {t t' : List (Exchange I)} (h : p.Reaches t p')
    (h' : p'.Reaches t' p'') : p.Reaches (t ++ t') p'' := by
  induction h with
  | refl p => exact h'
  | ask _ ih => exact .ask (ih h')

theorem reaches_done_iff {a : α} {t : List (Exchange I)} {p' : Program I α} :
    (done a).Reaches t p' ↔ t = [] ∧ p' = done a := by
  constructor
  · intro h
    cases h
    exact ⟨rfl, rfl⟩
  · rintro ⟨rfl, rfl⟩
    exact .refl _

@[simp] theorem yields_done_iff {a b : α} {t : List (Exchange I)} :
    (done a).Yields t b ↔ t = [] ∧ b = a := by
  simp [Yields, reaches_done_iff]

@[simp] theorem asks_done_iff {a : α} {t : List (Exchange I)} {q : I.Query} :
    (done a).Asks t q ↔ False := by
  simp [Asks, reaches_done_iff]

theorem yields_ask_iff {q : I.Query} {next : I.Answer q → Program I α} {t : List (Exchange I)}
    {a : α} : (ask q next).Yields t a ↔ ∃ r t', t = ⟨q, r⟩ :: t' ∧ (next r).Yields t' a := by
  constructor
  · intro h
    cases h with
    | ask h => exact ⟨_, _, rfl, h⟩
  · rintro ⟨r, t', rfl, h⟩
    exact .ask h

theorem asks_ask_iff {q q' : I.Query} {next : I.Answer q → Program I α} {t : List (Exchange I)} :
    (ask q next).Asks t q' ↔
      (t = [] ∧ q' = q) ∨ ∃ r t', t = ⟨q, r⟩ :: t' ∧ (next r).Asks t' q' := by
  constructor
  · rintro ⟨next', h⟩
    cases h with
    | refl => exact .inl ⟨rfl, rfl⟩
    | ask h => exact .inr ⟨_, _, rfl, _, h⟩
  · rintro (⟨rfl, rfl⟩ | ⟨r, t', rfl, next', h⟩)
    · exact ⟨_, .refl _⟩
    · exact ⟨_, .ask h⟩

/-- A sequence ends as its second part does, once its first part has ended. -/
theorem yields_bind_iff {p : Program I α} {f : α → Program I β} {t : List (Exchange I)} {b : β} :
    (p.bind f).Yields t b ↔
      ∃ t₁ t₂ a, t = t₁ ++ t₂ ∧ p.Yields t₁ a ∧ (f a).Yields t₂ b := by
  induction p generalizing t with
  | done a =>
    constructor
    · intro h
      exact ⟨[], t, a, rfl, by simp, h⟩
    · rintro ⟨t₁, t₂, a', rfl, h₁, h₂⟩
      obtain ⟨rfl, rfl⟩ := yields_done_iff.1 h₁
      exact h₂
  | ask q next ih =>
    rw [bind_ask, yields_ask_iff]
    constructor
    · rintro ⟨r, t', rfl, h⟩
      obtain ⟨t₁, t₂, a, rfl, h₁, h₂⟩ := (ih r).1 h
      exact ⟨⟨q, r⟩ :: t₁, t₂, a, rfl, .ask h₁, h₂⟩
    · rintro ⟨t₁, t₂, a, rfl, h₁, h₂⟩
      obtain ⟨r, t', rfl, h⟩ := yields_ask_iff.1 h₁
      exact ⟨r, t' ++ t₂, rfl, (ih r).2 ⟨t', t₂, a, rfl, h, h₂⟩⟩

/-- A sequence asks what its first part asks, and then what its second part asks. -/
theorem asks_bind_iff {p : Program I α} {f : α → Program I β} {t : List (Exchange I)}
    {q : I.Query} :
    (p.bind f).Asks t q ↔
      p.Asks t q ∨ ∃ t₁ t₂ a, t = t₁ ++ t₂ ∧ p.Yields t₁ a ∧ (f a).Asks t₂ q := by
  induction p generalizing t with
  | done a =>
    simp only [bind_done, asks_done_iff, false_or, yields_done_iff]
    constructor
    · intro h
      exact ⟨[], t, a, rfl, ⟨rfl, rfl⟩, h⟩
    · rintro ⟨t₁, t₂, a', rfl, ⟨rfl, rfl⟩, h⟩
      exact h
  | ask q' next ih =>
    rw [bind_ask, asks_ask_iff, asks_ask_iff]
    constructor
    · rintro (⟨rfl, rfl⟩ | ⟨r, t', rfl, h⟩)
      · exact .inl (.inl ⟨rfl, rfl⟩)
      · rcases (ih r).1 h with h | ⟨t₁, t₂, a, rfl, h₁, h₂⟩
        · exact .inl (.inr ⟨r, t', rfl, h⟩)
        · exact .inr ⟨⟨q', r⟩ :: t₁, t₂, a, rfl, .ask h₁, h₂⟩
    · rintro ((⟨rfl, rfl⟩ | ⟨r, t', rfl, h⟩) | ⟨t₁, t₂, a, rfl, h₁, h₂⟩)
      · exact .inl ⟨rfl, rfl⟩
      · exact .inr ⟨r, t', rfl, (ih r).2 (.inl h)⟩
      · obtain ⟨r, t', rfl, h⟩ := yields_ask_iff.1 h₁
        exact .inr ⟨r, t' ++ t₂, rfl, (ih r).2 (.inr ⟨t', t₂, a, rfl, h, h₂⟩)⟩

/-! ## The questions of a program -/

/-- The program only asks questions of the kind `K`, whatever the answers are. -/
def Confined (K : I.Query → Prop) (p : Program I α) : Prop := ∀ t q, p.Asks t q → K q

variable {K : I.Query → Prop}

theorem confined_done (a : α) : (done a : Program I α).Confined K := by
  intro t q h
  exact absurd h (by simp)

theorem confined_ask {q : I.Query} {next : I.Answer q → Program I α} (hq : K q)
    (h : ∀ r, (next r).Confined K) : (ask q next).Confined K := by
  intro t q' h'
  rcases asks_ask_iff.1 h' with ⟨-, rfl⟩ | ⟨r, t', rfl, hr⟩
  · exact hq
  · exact h r t' q' hr

theorem Confined.head {q : I.Query} {next : I.Answer q → Program I α}
    (h : (ask q next).Confined K) : K q :=
  h [] q (asks_ask_iff.2 (.inl ⟨rfl, rfl⟩))

theorem Confined.tail {q : I.Query} {next : I.Answer q → Program I α}
    (h : (ask q next).Confined K) (r : I.Answer q) : (next r).Confined K :=
  fun t q' h' => h (⟨q, r⟩ :: t) q' (asks_ask_iff.2 (.inr ⟨r, t, rfl, h'⟩))

theorem Confined.bind {p : Program I α} {f : α → Program I β} (hp : p.Confined K)
    (hf : ∀ a, (f a).Confined K) : (p.bind f).Confined K := by
  intro t q h
  rcases asks_bind_iff.1 h with h | ⟨t₁, t₂, a, rfl, -, h⟩
  · exact hp t q h
  · exact hf a t₂ q h

theorem Reaches.confined {p p' : Program I α} {t : List (Exchange I)} (h : p.Reaches t p')
    (hp : p.Confined K) : ∀ x ∈ t, K x.query := by
  induction h with
  | refl p => simp
  | @ask q next r t p' h ih =>
    intro x hx
    rcases List.mem_cons.1 hx with rfl | hx
    · exact hp.head
    · exact ih (hp.tail r) x hx

/-! ## Runs -/

/-- The exchanges of a run. -/
def trace (env : Environment I σ) : Program I α → σ → List (Exchange I)
  | .done _, _ => []
  | .ask q next, s => ⟨q, (env q s).1⟩ :: (next (env q s).1).trace env (env q s).2

theorem trace_bind (env : Environment I σ) (p : Program I α) (f : α → Program I β) (s : σ) :
    (p.bind f).trace env s =
      p.trace env s ++ (f (p.run env s).1).trace env (p.run env s).2 := by
  induction p generalizing s with
  | done a => rfl
  | ask q next ih =>
    simp only [bind_ask, trace, run_ask, List.cons_append]
    rw [ih]

/-- Every run is described by its trace. -/
theorem yields_trace (env : Environment I σ) (p : Program I α) (s : σ) :
    p.Yields (p.trace env s) (p.run env s).1 := by
  induction p generalizing s with
  | done a => exact .refl _
  | ask q next ih => exact .ask (ih _ _)

/-- Every answer of a run is given in some state on the way. -/
theorem trace_answered {env : Environment I σ} {P : σ → Prop} {p : Program I α}
    (hP : ∀ q s, P s → P (env q s).2) {s : σ} (hs : P s) :
    ∀ x ∈ p.trace env s, ∃ s', P s' ∧ x.answer = (env x.query s').1 := by
  induction p generalizing s with
  | done a => simp [trace]
  | ask q next ih =>
    intro x hx
    rcases List.mem_cons.1 hx with rfl | hx
    · exact ⟨s, hs, rfl⟩
    · exact ih _ (hP q s hs) x hx

/-! ## Runs amid the moves of others -/

/-- A run of `p` from `s` to `s'` amid moves of others: before each question and in the end the state
may have been moved. -/
inductive Amid (env : Environment I σ) (move : σ → σ → Prop) :
    Program I α → σ → List (Exchange I) → α → σ → Prop where
  /-- The program has ended. -/
  | done (a : α) (s : σ) : Amid env move (.done a) s [] a s
  /-- The environment answers a question. -/
  | ask {q : I.Query} {next : I.Answer q → Program I α} {s s' : σ} {t : List (Exchange I)} {a : α}
      (h : Amid env move (next (env q s).1) (env q s).2 t a s') :
      Amid env move (.ask q next) s (⟨q, (env q s).1⟩ :: t) a s'
  /-- Others move. -/
  | move {p : Program I α} {s s₁ s' : σ} {t : List (Exchange I)} {a : α} (hm : move s s₁)
      (h : Amid env move p s₁ t a s') : Amid env move p s t a s'

theorem Amid.yields {env : Environment I σ} {move : σ → σ → Prop} {p : Program I α} {s s' : σ}
    {t : List (Exchange I)} {a : α} (h : Amid env move p s t a s') : p.Yields t a := by
  induction h with
  | done a s => exact .refl _
  | ask _ ih => exact .ask ih
  | move _ _ ih => exact ih

theorem amid_run (env : Environment I σ) (move : σ → σ → Prop) (p : Program I α) (s : σ) :
    Amid env move p s (p.trace env s) (p.run env s).1 (p.run env s).2 := by
  induction p generalizing s with
  | done a => exact .done a s
  | ask q next ih => exact .ask (ih _ _)

/-! ## Runs with an oracle -/

/-- The end of a program whose questions are answered by an oracle. -/
def eval (o : Oracle I) : Program I α → α
  | .done a => a
  | .ask q next => (next (o q)).eval o

theorem yields_eval (o : Oracle I) (p : Program I α) :
    ∃ t, p.Yields t (p.eval o) ∧ ∀ x ∈ t, x.answer = o x.query := by
  induction p with
  | done a => exact ⟨[], .refl _, by simp⟩
  | ask q next ih =>
    obtain ⟨t, h, ht⟩ := ih (o q)
    exact ⟨⟨q, o q⟩ :: t, .ask h, by simpa using ht⟩

/-- An oracle that confirms all answers of a trace leads to the same end. -/
theorem Yields.eval_eq {o : Oracle I} {p : Program I α} {t : List (Exchange I)} {a : α}
    (h : p.Yields t a) (ho : ∀ x ∈ t, o x.query = x.answer) : p.eval o = a := by
  induction p generalizing t with
  | done b => exact (yields_done_iff.1 h).2.symm
  | ask q next ih =>
    obtain ⟨r, t', rfl, h'⟩ := yields_ask_iff.1 h
    have hr : o q = r := ho ⟨q, r⟩ (by simp)
    rw [eval, hr]
    exact ih r h' fun x hx => ho x (by simp [hx])

theorem eval_bind (o : Oracle I) (p : Program I α) (f : α → Program I β) :
    (p.bind f).eval o = (f (p.eval o)).eval o := by
  induction p with
  | done a => rfl
  | ask q next ih => exact ih _

end Program

end ShieldedWallet
