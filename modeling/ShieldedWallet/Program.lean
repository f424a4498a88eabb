/-!
# Programs that ask

The wallet does nothing by itself: it asks a prover, a contract, a storage, and goes on from their
answers. A program is the tree of its questions. What the answers are is left to an environment, so
that the same program can be run against a ledger and be reasoned about for every behaviour of the
other parties.
-/

namespace ShieldedWallet

/-- What can be asked, and what kind of answer each question has. -/
structure Interface where
  /-- The questions. -/
  Query : Type
  /-- The answers to a question. -/
  Answer : Query → Type

/-- A program that asks questions of `I` and ends with a value of `α`. -/
inductive Program (I : Interface) (α : Type) : Type where
  /-- The program has ended. -/
  | done (a : α)
  /-- The program asks `q` and goes on from the answer. -/
  | ask (q : I.Query) (next : I.Answer q → Program I α)

/-- A party that answers every question, at the cost of changing its state. -/
abbrev Environment (I : Interface) (σ : Type) := (q : I.Query) → σ → I.Answer q × σ

namespace Program

variable {I : Interface} {α β γ σ : Type}

/-- First `p`, then what follows from its result. -/
def bind (p : Program I α) (f : α → Program I β) : Program I β :=
  match p with
  | .done a => f a
  | .ask q next => .ask q fun r => (next r).bind f

instance : Monad (Program I) where
  pure := .done
  bind := Program.bind

/-- The program that asks one question. -/
def query (q : I.Query) : Program I (I.Answer q) := .ask q .done

/-- Runs a program in an environment. -/
def run (env : Environment I σ) : Program I α → σ → α × σ
  | .done a, s => (a, s)
  | .ask q next, s => (next (env q s).1).run env (env q s).2

/-! ## Laws -/

@[simp] theorem pure_eq (a : α) : (pure a : Program I α) = .done a := rfl

@[simp] theorem bind_eq (p : Program I α) (f : α → Program I β) : p >>= f = p.bind f := rfl

@[simp] theorem bind_done (a : α) (f : α → Program I β) : (done a : Program I α).bind f = f a := rfl

@[simp] theorem bind_ask (q : I.Query) (next : I.Answer q → Program I α) (f : α → Program I β) :
    (ask q next).bind f = ask q fun r => (next r).bind f := rfl

theorem bind_pure (p : Program I α) : p.bind .done = p := by
  induction p with
  | done a => rfl
  | ask q next ih => simp [ih]

theorem bind_assoc (p : Program I α) (f : α → Program I β) (g : β → Program I γ) :
    (p.bind f).bind g = p.bind fun a => (f a).bind g := by
  induction p with
  | done a => rfl
  | ask q next ih => simp [ih]

instance : LawfulMonad (Program I) :=
  LawfulMonad.mk' (Program I) bind_pure (fun _ _ => rfl) bind_assoc

@[simp] theorem run_done (env : Environment I σ) (a : α) (s : σ) :
    (done a : Program I α).run env s = (a, s) := rfl

@[simp] theorem run_ask (env : Environment I σ) (q : I.Query) (next : I.Answer q → Program I α)
    (s : σ) : (ask q next).run env s = (next (env q s).1).run env (env q s).2 := rfl

/-- A sequence runs its second part in the state its first part left. -/
theorem run_bind (env : Environment I σ) (p : Program I α) (f : α → Program I β) (s : σ) :
    (p.bind f).run env s = (f (p.run env s).1).run env (p.run env s).2 := by
  induction p generalizing s with
  | done a => rfl
  | ask q next ih => exact ih _ _

end Program

end ShieldedWallet
