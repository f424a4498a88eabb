import Mathlib.Data.List.Perm.Basic
import ShieldedWallet.Proofs.Program.Action

/-!
# Programs that wait for each other

Some programs are started at any times and answered in turns, in any order, while others change the
surroundings. Only one of them at a time is past its `acquire` and not yet past its `release`. If each
of them is an exclusive action, then what all of them have asked is what they would have asked one
after another, up to the part of the one that holds the others up.
-/

namespace ShieldedWallet

namespace Program

variable {I : Interface} {α β : Type} {p p' : Program I α} {t u : List (Exchange I)}

theorem Reaches.snoc {q : I.Query} {next : I.Answer q → Program I α} (h : p.Reaches t (.ask q next))
    (r : I.Answer q) : p.Reaches (t ++ [⟨q, r⟩]) (next r) :=
  h.trans (.ask (.refl _))

theorem Reaches.confined_rest {K : I.Query → Prop} (h : p.Reaches t p') (hp : p.Confined K) :
    p'.Confined K := by
  rintro u q ⟨next, hq⟩
  exact hp (t ++ u) q ⟨next, h.trans hq⟩

/-- The trace is that of complete runs of `p` one after another, with what each of them ended with. -/
inductive Runs (p : Program I α) : List (Exchange I) → List α → Prop
  | nil : Runs p [] []
  | cons {t u : List (Exchange I)} {a : α} {as : List α} (h : p.Yields t a) (hs : Runs p u as) :
      Runs p (t ++ u) (a :: as)

theorem Runs.snoc {a : α} {as : List α} (hs : Runs p t as) (h : p.Yields u a) :
    Runs p (t ++ u) (as ++ [a]) := by
  induction hs with
  | nil => simpa using Runs.cons h .nil
  | cons h' _ ih =>
    rw [List.append_assoc, List.cons_append]
    exact .cons h' ih

end Program

namespace Action

variable {α : Type} {t : Trace}

/-- What an exclusive action does when its part has ended. -/
def released (r : Except Failure α) : Program surroundings (Except Failure α) :=
  Query.release.program.bind fun _ => .done r

theorem exclusive_run (x : Action α) :
    (exclusive x).run = .ask .acquire fun _ => x.run.bind released := rfl

theorem yields_exclusive_iff {x : Action α} {r : Except Failure α} :
    (exclusive x).run.Yields t r ↔
      ∃ t', t = ⟨.acquire, ()⟩ :: (t' ++ [⟨.release, ()⟩]) ∧ x.run.Yields t' r := by
  rw [exclusive_run, Program.yields_ask_iff]
  constructor
  · rintro ⟨⟨⟩, t', rfl, h⟩
    obtain ⟨t₁, t₂, r', rfl, h₁, h₂⟩ := Program.yields_bind_iff.1 h
    obtain ⟨t₃, t₄, ⟨⟩, rfl, h₃, h₄⟩ := Program.yields_bind_iff.1 h₂
    obtain rfl := Query.yields_program_iff.1 h₃
    obtain ⟨rfl, rfl⟩ := Program.yields_done_iff.1 h₄
    exact ⟨t₁, rfl, h₁⟩
  · rintro ⟨t', rfl, h⟩
    refine ⟨(), t' ++ [⟨.release, ()⟩], rfl, Program.yields_bind_iff.2 ⟨t', _, r, rfl, h, ?_⟩⟩
    exact .ask (.refl _)

end Action

/-! ## Turns -/

/-- A program that has been started: whether it holds up the others, and what is left of it. -/
structure Running (α : Type) where
  holds : Bool
  rest : Program surroundings α

namespace Running

variable {α : Type}

/-- What the program has ended with. -/
def result? (x : Running α) : Option α :=
  match x.rest with
  | .done a => some a
  | .ask _ _ => none

end Running

/-- The surroundings, the programs that have been started in them, and what these have asked. -/
structure Scene (σ α : Type) where
  state : σ
  running : List (Running α)
  log : Trace

/-- Whether a program holds up the others once the question is answered. -/
def Query.holdsAfter (q : Query) (holds : Bool) : Bool :=
  match q with
  | .acquire => true
  | .release => false
  | _ => holds

namespace Scene

variable {σ α : Type}

/-- No program holds up the others. -/
def IsFree (s : Scene σ α) : Prop := ∀ x ∈ s.running, x.holds = false

instance (s : Scene σ α) : Decidable s.IsFree := inferInstanceAs (Decidable (∀ x ∈ s.running, _))

/-- Whether the question has to wait. -/
def blocks (s : Scene σ α) (q : Query) : Bool :=
  match q with
  | .acquire => s.running.any (·.holds)
  | _ => false

/-- The turn of the `k`-th program: its question is answered, unless it has ended or has to wait. -/
def turn (env : Environment surroundings σ) (k : Nat) (s : Scene σ α) : Scene σ α :=
  match s.running[k]? with
  | some ⟨holds, .ask q next⟩ =>
    if s.blocks q then s
    else
      { state := (env q s.state).2
        running := s.running.set k ⟨q.holdsAfter holds, next (env q s.state).1⟩
        log := s.log ++ [⟨q, (env q s.state).1⟩] }
  | _ => s

/-- Some turns, one after another. -/
def play (env : Environment surroundings σ) (ks : List Nat) (s : Scene σ α) : Scene σ α :=
  ks.foldl (fun s k => s.turn env k) s

/-- The program `p` is started, or it is the turn of a program, or others change the surroundings. -/
inductive Moves (env : Environment surroundings σ) (move : σ → σ → Prop) (p : Program surroundings α)
    (s : Scene σ α) : Scene σ α → Prop
  | start : Moves env move p s { s with running := s.running ++ [⟨false, p⟩] }
  | turn (k : Nat) : Moves env move p s (s.turn env k)
  | other {s' : σ} (h : move s.state s') : Moves env move p s { s with state := s' }

/-- The scene has come to be by moves, from the surroundings `s₀` without any programs. -/
inductive Course (env : Environment surroundings σ) (move : σ → σ → Prop)
    (p : Program surroundings α) (s₀ : σ) : Scene σ α → Prop
  | start : Course env move p s₀ ⟨s₀, [], []⟩
  | move {s s' : Scene σ α} (h : Course env move p s₀ s) (hm : Moves env move p s s') :
      Course env move p s₀ s'

variable {env : Environment surroundings σ} {move : σ → σ → Prop} {p : Program surroundings α}
  {s s' : Scene σ α} {s₀ : σ} {k : Nat}

theorem turn_cases (env : Environment surroundings σ) (k : Nat) (s : Scene σ α) :
    s.turn env k = s ∨ ∃ holds q next, s.running[k]? = some ⟨holds, .ask q next⟩ ∧
      (q = .acquire → s.IsFree) ∧
      s.turn env k = {
        state := (env q s.state).2
        running := s.running.set k ⟨q.holdsAfter holds, next (env q s.state).1⟩
        log := s.log ++ [⟨q, (env q s.state).1⟩] } := by
  cases hk : s.running[k]? with
  | none => exact .inl (by simp [turn, hk])
  | some x =>
    obtain ⟨holds, rest⟩ := x
    cases rest with
    | done a => exact .inl (by simp [turn, hk])
    | ask q next =>
      by_cases hb : s.blocks q = true
      · exact .inl (by simp [turn, hk, hb])
      · refine .inr ⟨holds, q, next, rfl, ?_, by simp [turn, hk, hb]⟩
        rintro rfl x hx
        simp only [blocks, List.any_eq_true, not_exists, not_and, Bool.not_eq_true] at hb
        exact hb x hx

theorem Course.play (h : Course env move p s₀ s) (ks : List Nat) :
    Course env move p s₀ (s.play env ks) := by
  induction ks generalizing s with
  | nil => exact h
  | cons k ks ih => exact ih (h.move (.turn k))

/-- A move asks one question at most. -/
theorem Moves.log_eq (h : Moves env move p s s') :
    s'.log = s.log ∨ ∃ x, s'.log = s.log ++ [x] := by
  cases h with
  | start => exact .inl rfl
  | turn k =>
    rcases turn_cases env k s with he | ⟨holds, q, next, -, -, he⟩
    · exact .inl (by rw [he])
    · exact .inr ⟨⟨q, (env q s.state).1⟩, by rw [he]⟩
  | other h => exact .inl rfl

end Scene

/-! ## Taking turns is going one after another -/

/-- The program waits for its start or has ended. -/
def Running.Idle {α : Type} (p : Program surroundings α) (x : Running α) : Prop :=
  x.holds = false ∧ (x.rest = p ∨ ∃ a, x.rest = .done a)

section Serial

variable {σ α : Type} {x : Action α} {env : Environment surroundings σ} {move : σ → σ → Prop}
  {s s' : Scene σ (Except Failure α)} {s₀ : σ} {t u : Trace} {k : Nat}

/-- All programs are idle, or all but one, which has asked `u` by itself. -/
inductive HeldBy (x : Action α) (running : List (Running (Except Failure α))) : Trace → Prop
  | nobody (hidle : ∀ (i : Nat) (y : Running (Except Failure α)), running[i]? = some y →
        y.Idle (Action.exclusive x).run) : HeldBy x running []
  | program (k : Nat) {u : Trace} {rest : Program surroundings (Except Failure α)}
      (hk : running[k]? = some ⟨true, rest.bind Action.released⟩) (hrest : x.run.Reaches u rest)
      (hidle : ∀ (i : Nat) (y : Running (Except Failure α)), i ≠ k → running[i]? = some y →
        y.Idle (Action.exclusive x).run) :
      HeldBy x running (⟨.acquire, ()⟩ :: u)

/-- Up to `u`, the log is that of complete runs of the action, and their results are those of the
programs that have ended. -/
structure Serial (x : Action α) (s : Scene σ (Except Failure α)) (t u : Trace)
    (as : List (Except Failure α)) : Prop where
  log_eq : s.log = t ++ u
  runs : Program.Runs (Action.exclusive x).run t as
  results : (s.running.filterMap Running.result?).Perm as
  held : HeldBy x s.running u

variable {as : List (Except Failure α)} {running : List (Running (Except Failure α))}

/-- Replacing a program that has not ended adds the result of the new one. -/
theorem perm_results_set {y z : Running (Except Failure α)} (hk : running[k]? = some y)
    (hy : y.result? = none) :
    ((running.set k z).filterMap Running.result?).Perm
      (running.filterMap Running.result? ++ z.result?.toList) := by
  induction running generalizing k with
  | nil => simp at hk
  | cons w running ih =>
    cases k with
    | zero =>
      obtain rfl : w = y := by simpa using hk
      cases hz : z.result? with
      | none => simp [hz, hy]
      | some a => simpa [hz, hy] using (List.perm_append_singleton _ _).symm
    | succ k =>
      have hrest := ih (k := k) (by simpa using hk)
      cases hw : w.result? with
      | none => simpa [hw] using hrest
      | some a => simpa [hw] using hrest

theorem Running.Idle.of_ask {q : Query} {next : q.Answer → Program surroundings (Except Failure α)}
    {holds : Bool}
    (h : (⟨holds, .ask q next⟩ : Running (Except Failure α)).Idle (Action.exclusive x).run) :
    holds = false ∧ Program.ask (I := surroundings) q next = (Action.exclusive x).run := by
  obtain ⟨hholds, hrest | ⟨a, ha⟩⟩ := h
  · exact ⟨hholds, hrest⟩
  · cases ha

theorem Serial.start (h : Serial x s t u as) :
    Serial x { s with running := s.running ++ [⟨false, (Action.exclusive x).run⟩] } t u as where
  log_eq := h.log_eq
  runs := h.runs
  results := by
    have hnone : (⟨false, (Action.exclusive x).run⟩ : Running (Except Failure α)).result? = none := rfl
    simpa [hnone] using h.results
  held := by
    have hnew : ∀ (i : Nat) (y : Running (Except Failure α)), s.running.length ≤ i →
        (s.running ++ [⟨false, (Action.exclusive x).run⟩])[i]? = some y →
        y.Idle (Action.exclusive x).run := by
      intro i y hi hy
      rw [List.getElem?_append_right hi] at hy
      obtain rfl := List.mem_singleton.1 (List.mem_of_getElem? hy)
      exact ⟨rfl, .inl rfl⟩
    cases h.held with
    | nobody hidle =>
      refine .nobody fun i y hy => ?_
      rcases Nat.lt_or_ge i s.running.length with hi | hi
      · exact hidle i y (by rwa [List.getElem?_append_left hi] at hy)
      · exact hnew i y hi hy
    | program k hk hrest hidle =>
      have hlt : k < s.running.length := (List.getElem?_eq_some_iff.1 hk).1
      refine .program k (by rwa [List.getElem?_append_left hlt]) hrest fun i y hne hy => ?_
      rcases Nat.lt_or_ge i s.running.length with hi | hi
      · exact hidle i y hne (by rwa [List.getElem?_append_left hi] at hy)
      · exact hnew i y hi hy

/-- After the answer to a program that is not idle, the others are as idle as before. -/
theorem idle_set {y : Running (Except Failure α)}
    (h : ∀ (i : Nat) (z : Running (Except Failure α)), i ≠ k → running[i]? = some z →
      z.Idle (Action.exclusive x).run) :
    ∀ (i : Nat) (z : Running (Except Failure α)), i ≠ k → (running.set k y)[i]? = some z →
      z.Idle (Action.exclusive x).run := by
  intro i z hne hz
  rw [List.getElem?_set_ne hne.symm] at hz
  exact h i z hne hz

/-- A program that has not been released has not ended. -/
theorem result?_released (holds : Bool) (rest : Program surroundings (Except Failure α)) :
    (⟨holds, rest.bind Action.released⟩ : Running (Except Failure α)).result? = none := by
  cases rest <;> rfl

theorem ask_eq_exclusive {q : Query} {next : q.Answer → Program surroundings (Except Failure α)}
    (h : Program.ask (I := surroundings) q next = (Action.exclusive x).run) :
    q = .acquire ∧ ∀ r, next r = x.run.bind Action.released := by
  rw [Action.exclusive_run] at h
  injection h with hq hnext
  subst hq
  obtain rfl := eq_of_heq hnext
  exact ⟨rfl, fun _ => rfl⟩

theorem Serial.turn (h : Serial x s t u as)
    (hx : x.run.Confined fun q : Query => q ≠ .acquire ∧ q ≠ .release) (k : Nat) :
    ∃ t' u' as', Serial x (s.turn env k) t' u' as' := by
  rcases Scene.turn_cases env k s with he | ⟨holds, q, next, hk, hfree, he⟩
  · rw [he]
    exact ⟨t, u, as, h⟩
  rw [he]
  have hlog := h.log_eq
  have hlt : k < s.running.length := (List.getElem?_eq_some_iff.1 hk).1
  have hset : ∀ y, (s.running.set k y)[k]? = some y := fun y => List.getElem?_set_self hlt
  have hresults : ∀ y, ((s.running.set k y).filterMap Running.result?).Perm
      (as ++ y.result?.toList) :=
    fun y => (perm_results_set hk rfl).trans (h.results.append_right _)
  cases h.held with
  | nobody hidle =>
    -- an idle program that asks something is about to begin
    obtain ⟨-, hask⟩ := (hidle k _ hk).of_ask
    obtain ⟨rfl, hnext⟩ := ask_eq_exclusive hask
    have hres := hresults ⟨true, x.run.bind Action.released⟩
    rw [result?_released, Option.toList_none, List.append_nil] at hres
    rw [hnext]
    refine ⟨t, [⟨.acquire, ()⟩], as, ?_, h.runs, hres, ?_⟩
    · rw [hlog, List.append_nil]
    · exact .program k (hset _) (.refl _) (idle_set fun i y _ => hidle i y)
  | @program k' u rest hk' hrest hidle =>
    by_cases hkk : k = k'
    · subst hkk
      obtain ⟨rfl, hask⟩ : holds = true ∧ Program.ask (I := surroundings) q next =
          rest.bind Action.released := by
        rw [hk] at hk'
        exact Running.mk.inj (Option.some.inj hk')
      cases rest with
      | done a =>
        -- the program releases the others and has ended
        injection hask with hq hnext
        subst hq
        obtain rfl := eq_of_heq hnext
        have hyields : (Action.exclusive x).run.Yields
            (⟨.acquire, ()⟩ :: (u ++ [⟨.release, ()⟩])) a :=
          Action.yields_exclusive_iff.2 ⟨u, rfl, hrest⟩
        refine ⟨_, [], as ++ [a], ?_, h.runs.snoc hyields, hresults _, .nobody fun i y hy => ?_⟩
        · simp [hlog]
        · by_cases hi : i = k
          · subst hi
            obtain rfl := Option.some.inj ((hset _).symm.trans hy)
            exact ⟨rfl, .inr ⟨a, rfl⟩⟩
          · exact idle_set hidle i y hi hy
      | ask q' next' =>
        injection hask with hq hnext
        subst hq
        obtain rfl := eq_of_heq hnext
        obtain ⟨hacquire, hrelease⟩ :=
          hrest.confined_rest hx [] q (Program.asks_ask_iff.2 (.inl ⟨rfl, rfl⟩))
        have hholds : q.holdsAfter true = true := by
          cases q <;> first | rfl | exact absurd rfl hacquire | exact absurd rfl hrelease
        have hres := hresults ⟨true, (next' (env q s.state).1).bind Action.released⟩
        rw [result?_released, Option.toList_none, List.append_nil] at hres
        rw [hholds]
        refine ⟨t, ⟨.acquire, ()⟩ :: (u ++ [⟨q, (env q s.state).1⟩]), as, ?_, h.runs, hres, ?_⟩
        · simp [hlog]
        · exact .program k (hset _) (hrest.snoc _) (idle_set hidle)
    · -- another program could only begin, but it has to wait
      obtain ⟨-, hask⟩ := (hidle k _ hkk hk).of_ask
      obtain ⟨rfl, -⟩ := ask_eq_exclusive hask
      have hholds := hfree rfl _ (List.mem_of_getElem? hk')
      cases hholds

/-- However the programs take turns, they are serial. -/
theorem Scene.Course.serial (h : Scene.Course env move (Action.exclusive x).run s₀ s)
    (hx : x.run.Confined fun q : Query => q ≠ .acquire ∧ q ≠ .release) :
    ∃ t u as, Serial x s t u as := by
  induction h with
  | start => exact ⟨[], [], [], rfl, .nil, .nil, .nobody (by simp)⟩
  | move _ hm ih =>
    obtain ⟨t, u, as, ih⟩ := ih
    cases hm with
    | start => exact ⟨t, u, as, ih.start⟩
    | turn k => exact ih.turn hx k
    | other _ => exact ⟨t, u, as, ih.log_eq, ih.runs, ih.results, ih.held⟩

end Serial

end ShieldedWallet
