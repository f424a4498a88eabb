import ShieldedWallet.Proofs.Account.Stored
import ShieldedWallet.Proofs.History.Step

/-!
# Traces of passes

A pass is a sequence of steps. Whatever the surroundings answer, each step that is found is stored and
then told, and nothing else is stored or told. So what a pass has stored and what it has told are two
views of one list of steps, also if it fails.
-/

namespace ShieldedWallet

namespace Trace

/-- What has been stored under a key, in its order. -/
def stored (key : String) (t : Trace) : List Bytes :=
  t.filterMap fun
    | ⟨.store k item, .ok ()⟩ => if k = key then some item else none
    | _ => none

/-- The transactions that the owner has been told, in their order. -/
def reported (t : Trace) : List Transaction :=
  t.filterMap fun
    | ⟨.notify (.transaction x), _⟩ => some x
    | _ => none

variable {key : String} {t t' : Trace}

@[simp] theorem stored_nil : stored key [] = [] := rfl

@[simp] theorem reported_nil : reported [] = [] := rfl

@[simp] theorem stored_append : stored key (t ++ t') = stored key t ++ stored key t' :=
  List.filterMap_append

@[simp] theorem reported_append : reported (t ++ t') = reported t ++ reported t' :=
  List.filterMap_append

@[simp] theorem stored_store {k : String} {item : Bytes} {u : Unit} :
    stored key (⟨.store k item, .ok u⟩ :: t) =
      if k = key then item :: stored key t else stored key t := by
  by_cases h : k = key <;> simp [stored, h]

@[simp] theorem stored_store_error {k : String} {item : Bytes} {e : StorageFailure} :
    stored key (⟨.store k item, .error e⟩ :: t) = stored key t := rfl

@[simp] theorem reported_store {k : String} {item : Bytes} {r : Except StorageFailure Unit} :
    reported (⟨.store k item, r⟩ :: t) = reported t := rfl

@[simp] theorem stored_notify {n : Notice} {u : Unit} :
    stored key (⟨.notify n, u⟩ :: t) = stored key t := rfl

@[simp] theorem reported_transaction {x : Transaction} {u : Unit} :
    reported (⟨.notify (.transaction x), u⟩ :: t) = x :: reported t := rfl

@[simp] theorem reported_ofFailure {e : Failure} {stage : Stage} {operation : Operation} {u : Unit} :
    reported (⟨.notify (.ofFailure e stage operation), u⟩ :: t) = reported t := rfl

end Trace

/-- A question that is only about reading the chain. -/
def Query.IsLookup : Query → Prop
  | .prover _ | .contract (.nullifierBlock _) | .contract (.events _) => True
  | _ => False

theorem Trace.stored_of_lookups {key : String} {t : Trace} (h : ∀ x ∈ t, x.query.IsLookup) :
    t.stored key = [] := by
  refine List.filterMap_eq_nil_iff.2 fun x hx => ?_
  obtain ⟨q, r⟩ := x
  cases q with
  | store k item => exact absurd (h _ hx) id
  | _ => rfl

theorem Trace.reported_of_lookups {t : Trace} (h : ∀ x ∈ t, x.query.IsLookup) : t.reported = [] := by
  refine List.filterMap_eq_nil_iff.2 fun x hx => ?_
  obtain ⟨q, r⟩ := x
  cases q with
  | notify n => exact absurd (h _ hx) id
  | _ => rfl

namespace Action

variable {α : Type} {t : Trace}

theorem asks_exclusive {x : Action α} {q : Query} (h : (exclusive x).run.Asks t q) :
    q = .acquire ∨ q = .release ∨ ∃ t', t' <:+: t ∧ x.run.Asks t' q := by
  rcases Program.asks_bind_iff.1 h with h₁ | ⟨t₁, t₂, u, rfl, -, h₂⟩
  · exact .inl (Query.asks_program_iff.1 h₁).2
  rcases Program.asks_bind_iff.1 h₂ with h₃ | ⟨t₃, t₄, r, rfl, -, h₄⟩
  · exact .inr (.inr ⟨t₂, (List.suffix_append _ _).isInfix, h₃⟩)
  rcases Program.asks_bind_iff.1 h₄ with h₅ | ⟨_, _, _, _, _, h₅⟩
  · exact .inr (.inl (Query.asks_program_iff.1 h₅).2)
  · exact absurd h₅ (by simp)

/-- Only a failure is told in the end. -/
theorem yields_reporting {stage : Stage} {operation : Operation} {x : Action α}
    {r : Except Failure α} (h : (reporting stage operation x).run.Yields t r) :
    ∃ t', x.run.Yields t' r ∧ t' <+: t ∧ (t = t' ∨ ∃ e, r = .error e) := by
  obtain ⟨t₁, t₂, r', rfl, h₁, h₂⟩ := Program.yields_bind_iff.1 h
  cases r' with
  | ok a =>
    obtain ⟨rfl, rfl⟩ := Program.yields_done_iff.1 h₂
    exact ⟨t₁, h₁, List.prefix_append _ _, .inl (by simp)⟩
  | error e =>
    obtain ⟨t₃, t₄, u, rfl, h₃, h₄⟩ := Program.yields_bind_iff.1 h₂
    obtain ⟨-, rfl⟩ := Program.yields_done_iff.1 h₄
    exact ⟨t₁, h₁, List.prefix_append _ _, .inr ⟨e, rfl⟩⟩

theorem yields_reporting_ok {stage : Stage} {operation : Operation} {x : Action α} {a : α}
    (h : (reporting stage operation x).run.Yields t (.ok a)) : x.run.Yields t (.ok a) := by
  obtain ⟨t', h', -, rfl | ⟨e, he⟩⟩ := yields_reporting h
  · exact h'
  · cases he

end Action

theorem Note.confined_next? {version : ContractVersion} {m : Movement} {a : Account}
    {amount : UInt256} {K : Query → Prop} (hK : ∀ q, K (.prover q)) :
    (Note.next? version m a amount).run.Confined K := by
  unfold Note.next?
  split
  · exact Action.confined_pure _
  · refine Action.confined_bind (Action.confined_prover (hK _)) fun s => ?_
    refine Action.confined_bind ?_ fun note => ?_
    · refine Action.confined_bind ?_ fun h => Action.confined_prover (hK _)
      exact Action.confined_bind (Action.confined_prover (hK _)) fun k =>
        Action.confined_prover (hK _)
    · split
      · exact Action.confined_throw _
      · exact Action.confined_pure _

namespace NoteEvent

variable {version : ContractVersion} {a : Account} {K : Query → Prop}

theorem confined_claimed? (hK : ∀ q, K (.prover q)) (e : NoteEvent) :
    (e.claimed? version a).run.Confined K := by
  unfold claimed?
  split
  · refine Action.confined_tryCatch (Note.confined_next? hK) fun failure => ?_
    split
    · exact Action.confined_pure _
    · exact Action.confined_throw _
  · exact Action.confined_pure _

theorem confined_continuing (hK : ∀ q, K (.prover q)) (es : List NoteEvent) :
    (continuing version a es).run.Confined K := by
  induction es with
  | nil => exact Action.confined_pure _
  | cons e es ih =>
    refine Action.confined_bind (confined_claimed? hK e) fun next => ?_
    exact Action.confined_bind ih fun rest => Action.confined_pure _

theorem confined_apply (hK : ∀ q, K (.prover q)) (e : NoteEvent) :
    (e.apply version a).run.Confined K := by
  refine Action.confined_bind (confined_claimed? hK e) fun next => ?_
  split
  · split
    · exact Action.confined_pure _
    · exact Action.confined_throw _
  · exact Action.confined_throw _

end NoteEvent

namespace History

variable {version : ContractVersion}

theorem confined_searchKey {K : Query → Prop} (hK : ∀ q, K (.prover q)) (a : Account) :
    (SearchKey.ofAccount a).run.Confined K := by
  cases a with
  | unopened id => exact Action.confined_pure _
  | opened h =>
    refine Action.confined_bind (Action.confined_liftM _) fun nonce => ?_
    exact Action.confined_bind (Action.confined_prover (hK _)) fun s => Action.confined_pure _

theorem confined_select {K : Query → Prop} (hK : ∀ q, K (.prover q)) (a : Account) (block : UInt64)
    (es : List NoteEvent) : (select version a block es).run.Confined K := by
  refine Action.confined_bind (NoteEvent.confined_continuing hK es) fun found => ?_
  split
  · split
    · exact Action.confined_pure _
    · exact Action.confined_throw _
  · exact Action.confined_throw _

/-- A step only reads the chain. -/
theorem confined_next? (a : Account) : (next? version a).run.Confined Query.IsLookup := by
  refine Action.confined_bind (confined_searchKey (fun _ => trivial) a) fun key => ?_
  refine Action.confined_bind (Action.confined_prover trivial) fun h => ?_
  refine Action.confined_bind (Action.confined_contract trivial) fun found => ?_
  cases found with
  | none => exact Action.confined_pure _
  | some block =>
    refine Action.confined_bind (Action.confined_contract trivial) fun es => ?_
    refine Action.confined_bind (confined_select (fun _ => trivial) a block es) fun e => ?_
    exact Action.confined_bind (NoteEvent.confined_apply (fun _ => trivial) e) fun b =>
      Action.confined_pure _

/-! ## Sequences of steps -/

/-- A step of an account: the event, and the account it leads to. -/
structure Step where
  event : NoteEvent
  /-- The account after the event. -/
  account : Account

/-- Each of the steps is related to the account before it. -/
def Follows (R : Account → NoteEvent → Account → Prop) : Account → List Step → Prop
  | _, [] => True
  | a, x :: xs => R a x.event x.account ∧ Follows R x.account xs

/-- The account after some steps from `a`. -/
def lastOf (a : Account) (xs : List Step) : Account := (xs.getLast?.map Step.account).getD a

@[simp] theorem lastOf_nil (a : Account) : lastOf a [] = a := rfl

@[simp] theorem lastOf_cons (a : Account) (x : Step) (xs : List Step) :
    lastOf a (x :: xs) = lastOf x.account xs := by
  cases xs with
  | nil => rfl
  | cons y ys => simp [lastOf, List.getLast?_cons]

theorem lastOf_append (a : Account) (xs ys : List Step) :
    lastOf a (xs ++ ys) = lastOf (lastOf a xs) ys := by
  induction xs generalizing a with
  | nil => rfl
  | cons x xs ih => simp [ih]

section Follows

variable {R S : Account → NoteEvent → Account → Prop} {a : Account} {xs ys : List Step}

theorem follows_append : Follows R a (xs ++ ys) ↔ Follows R a xs ∧ Follows R (lastOf a xs) ys := by
  induction xs generalizing a with
  | nil => simp [Follows]
  | cons x xs ih => simp [Follows, ih, and_assoc]

theorem Follows.mono (h : Follows R a xs) (hRS : ∀ a e b, R a e b → S a e b) : Follows S a xs := by
  induction xs generalizing a with
  | nil => trivial
  | cons x xs ih => exact ⟨hRS _ _ _ h.1, ih h.2⟩

/-- What every step preserves holds after all steps. -/
theorem Follows.invariant {P : Account → Prop} (h : Follows R a xs)
    (hP : ∀ a e b, R a e b → P a → P b) (ha : P a) : P (lastOf a xs) := by
  induction xs generalizing a with
  | nil => exact ha
  | cons x xs ih =>
    rw [lastOf_cons]
    exact ih h.2 (hP _ _ _ h.1 ha)

theorem Follows.id_lastOf (h : Follows (fun a e b => e.Leads a b) a xs) : (lastOf a xs).id = a.id :=
  h.invariant (P := fun b => b.id = a.id) (fun _ _ _ hl hb => hl.id_eq.trans hb) rfl

/-- Each step uses up one nonce. -/
theorem Follows.nonce_lastOf (h : Follows (fun a e b => e.Leads a b) a xs) :
    (lastOf a xs).nonce.toNat = a.nonce.toNat + xs.length := by
  induction xs generalizing a with
  | nil => rfl
  | cons x xs ih =>
    rw [lastOf_cons, ih h.2, h.1.nonce_eq, List.length_cons]
    omega

/-- There are no more steps than nonces. -/
theorem Follows.length_lt (h : Follows (fun a e b => e.Leads a b) a xs) :
    xs.length < stepsLeft a := by
  have hn := h.nonce_lastOf
  have hlt := (lastOf a xs).nonce.toNat_lt
  simp only [stepsLeft, UInt64.size]
  omega

end Follows

/-! ## Walks -/

/-- The trace stores and tells the steps, which follow `a`, and nothing else. -/
structure Walked (R : Account → NoteEvent → Account → Prop) (r : Register) (t : Trace) (a : Account)
    (xs : List Step) : Prop where
  follows : Follows R a xs
  stored_eq : t.stored r.key = xs.map fun x => r.item x.account
  reported_eq : t.reported = xs.map fun x => x.event.transaction

variable {r : Register} {R : Account → NoteEvent → Account → Prop} {t : Trace}

theorem walked_nil {a : Account} (h : ∀ x ∈ t, x.query.IsLookup) : Walked R r t a [] :=
  ⟨trivial, Trace.stored_of_lookups h, Trace.reported_of_lookups h⟩

/-- Saving stores the account, or fails and stores nothing. -/
theorem yields_save {b : Account} {res : Except Failure Unit} (h : (r.save b).run.Yields t res) :
    t.reported = [] ∧ (t.stored r.key = [] ∧ (∃ e, res = .error e) ∨
      t.stored r.key = [r.item b] ∧ res = .ok ()) := by
  by_cases hid : b.id = r.id
  · rw [Register.save, if_neg (by simpa using hid)] at h
    obtain ⟨r', h', rfl⟩ := Action.yields_ofProgram_iff.1 h
    obtain rfl := Query.yields_program_iff.1 h'
    cases r' with
    | error e => exact ⟨rfl, .inl ⟨rfl, _, rfl⟩⟩
    | ok u => exact ⟨rfl, .inr ⟨by simp [Register.item], rfl⟩⟩
  · rw [Register.save, if_pos (by simpa using hid)] at h
    rcases Action.yields_bind h with ⟨e, he, rfl⟩ | ⟨t₁, t₂, u, rfl, h₁, h₂⟩
    · obtain ⟨rfl, -⟩ := Action.yields_throw_iff.1 he
      exact ⟨rfl, .inl ⟨rfl, _, rfl⟩⟩
    · simp at h₁

/-- Saving fails if the account is another one, or with the storage. -/
theorem yields_save_failure {b : Account} {failure : Failure}
    (h : (r.save b).run.Yields t (.error failure)) :
    b.id ≠ r.id ∧ failure = .foreignRecord ∨
      ∃ cause, failure = .storage cause ∧ t = [⟨.store r.key (r.item b), .error cause⟩] := by
  by_cases hid : b.id = r.id
  · rw [Register.save, if_neg (by simpa using hid)] at h
    obtain ⟨answer, h', hfailure⟩ := Action.yields_ofProgram_iff.1 h
    cases answer with
    | ok u => cases hfailure
    | error cause =>
      exact .inr ⟨cause, Except.error.inj hfailure, Query.yields_program_iff.1 h'⟩
  · rw [Register.save, if_pos (by simpa using hid)] at h
    rcases Action.yields_bind h with ⟨e, he, hfailure⟩ | ⟨t₁, t₂, u, rfl, h₁, -⟩
    · cases hfailure
      exact .inl ⟨hid, Except.error.inj (Action.yields_throw_iff.1 he).2⟩
    · simp at h₁

/-- How a walk of the given fuel ends after the steps `xs`: it finds no further step or is cut off, or
a look-up or a saving fails. -/
inductive Ends (version : ContractVersion) (r : Register) (t : Trace) (a : Account) (xs : List Step)
    (fuel : Nat) : Except Failure Nat → Nat → Prop where
  | cutOff {applied : Nat} (h : xs.length = fuel) : Ends version r t a xs fuel (.ok applied) applied
  | last {applied : Nat} {t' : Trace} (ht : t' <:+: t)
      (h : (next? version (lastOf a xs)).run.Yields t' (.ok none)) :
      Ends version r t a xs fuel (.ok applied) applied
  | lookup {applied : Nat} {e : Failure} {t' : Trace} (ht : t' <:+: t)
      (h : (next? version (lastOf a xs)).run.Yields t' (.error e)) :
      Ends version r t a xs fuel (.error e) applied
  | save {applied : Nat} {e : Failure} {t₁ t₂ : Trace} {b : Account} {x : NoteEvent}
      (ht₁ : t₁ <:+: t) (ht₂ : t₂ <:+: t)
      (h₁ : (next? version (lastOf a xs)).run.Yields t₁ (.ok (some (b, x))))
      (h₂ : (r.save b).run.Yields t₂ (.error e)) : Ends version r t a xs fuel (.error e) applied

theorem Ends.cons {a : Account} {x : Step} {xs : List Step} {fuel applied : Nat}
    {res : Except Failure Nat} (h : Ends version r t x.account xs fuel res applied) :
    Ends version r t a (x :: xs) (fuel + 1) res applied := by
  cases h with
  | cutOff h => exact .cutOff (by simp [h])
  | last ht h => exact .last ht (by simpa using h)
  | lookup ht h => exact .lookup ht (by simpa using h)
  | save ht₁ ht₂ h₁ h₂ => exact .save ht₁ ht₂ (by simpa using h₁) h₂

theorem Ends.mono {t t' : Trace} {a : Account} {xs : List Step} {fuel applied : Nat}
    {res : Except Failure Nat} (h : Ends version r t a xs fuel res applied) (ht : t <:+: t') :
    Ends version r t' a xs fuel res applied := by
  cases h with
  | cutOff h => exact .cutOff h
  | last ht' h => exact .last (ht'.trans ht) h
  | lookup ht' h => exact .lookup (ht'.trans ht) h
  | save ht₁ ht₂ h₁ h₂ => exact .save (ht₁.trans ht) (ht₂.trans ht) h₁ h₂

/-- The result of a walk that succeeds is the number of its steps. -/
theorem Ends.eq_of_ok {a : Account} {xs : List Step} {fuel applied m : Nat}
    (h : Ends version r t a xs fuel (.ok m) applied) : applied = m := by
  cases h <;> rfl

/-- What a walk has done, whatever it ended with. -/
theorem yields_advance {fuel applied : Nat} {a : Account} {res : Except Failure Nat}
    (h : (advance version r fuel applied a).run.Yields t res)
    (hR : ∀ t' a b e, t' <:+: t → (next? version a).run.Yields t' (.ok (some (b, e))) → R a e b) :
    ∃ xs, Walked R r t a xs ∧ Ends version r t a xs fuel res (applied + xs.length) := by
  -- a step is stored before it is told, so a step whose saving fails is neither
  induction fuel generalizing applied a t with
  | zero =>
    obtain ⟨rfl, rfl⟩ := Action.yields_pure_iff.1 h
    exact ⟨[], walked_nil (by simp), .cutOff rfl⟩
  | succ fuel ih =>
    rcases Action.yields_bind h with ⟨e, he, rfl⟩ | ⟨t₁, t', found, rfl, h₁, h'⟩
    · exact ⟨[], walked_nil (he.confined (confined_next? a)), .lookup List.infix_rfl he⟩
    have hlook := h₁.confined (confined_next? a)
    cases found with
    | none =>
      obtain ⟨rfl, rfl⟩ := Action.yields_pure_iff.1 h'
      exact ⟨[], walked_nil (by simpa using hlook), .last (by simp) h₁⟩
    | some found =>
      obtain ⟨b, e⟩ := found
      have hstep : R a e b := hR t₁ a b e (List.prefix_append _ _).isInfix h₁
      have hs₁ : Trace.stored r.key t₁ = [] := Trace.stored_of_lookups hlook
      have hr₁ := Trace.reported_of_lookups hlook
      rcases Action.yields_bind h' with ⟨f, hf, rfl⟩ | ⟨t₂, t₃, u, rfl, h₂, h''⟩
      · obtain ⟨hr₂, ⟨hs₂, -⟩ | ⟨-, hne⟩⟩ := yields_save hf
        · exact ⟨[], ⟨trivial, by simp [hs₁, hs₂], by simp [hr₁, hr₂]⟩,
            .save (List.prefix_append _ _).isInfix (List.suffix_append _ _).isInfix h₁ hf⟩
        · cases hne
      obtain ⟨hr₂, ⟨-, e', he'⟩ | ⟨hs₂, -⟩⟩ := yields_save h₂
      · cases he'
      rcases Action.yields_bind h'' with ⟨f, hf, rfl⟩ | ⟨t₄, t₅, u', rfl, h₃, h₄⟩
      · cases (Action.yields_notify_iff.1 hf).2
      obtain ⟨rfl, -⟩ := Action.yields_notify_iff.1 h₃
      have hrest : t₅ <:+: t₁ ++ (t₂ ++ ([⟨.notify (.transaction e.transaction), ()⟩] ++ t₅)) :=
        ⟨t₁ ++ t₂ ++ [⟨.notify (.transaction e.transaction), ()⟩], [], by simp⟩
      obtain ⟨xs, hw, hend⟩ := ih h₄ fun t' a b e ht' => hR t' a b e (ht'.trans hrest)
      refine ⟨⟨e, b⟩ :: xs, ⟨⟨hstep, hw.follows⟩, ?_, ?_⟩, ?_⟩
      · simp [hs₁, hs₂, hw.stored_eq]
      · simp [hr₁, hr₂, hw.reported_eq]
      · have hn : applied + (xs.length + 1) = applied + 1 + xs.length := by omega
        rw [List.length_cons, hn]
        exact (hend.mono hrest).cons

/-- The transactions of a replay are those of some steps, and a failure that cuts it off is that of
the next step. -/
theorem yields_replayFrom_ends {n : Nat} {a : Account} {ts : List Transaction} {e : Option Failure}
    (h : (replayFrom version n a).Yields t (ts, e))
    (hR : ∀ t' a b e, t' <:+: t → (next? version a).run.Yields t' (.ok (some (b, e))) → R a e b) :
    ∃ xs, Follows R a xs ∧ (ts = xs.map fun x => x.event.transaction) ∧
      ∀ failure, e = some failure →
        ∃ t', t' <:+: t ∧ (next? version (lastOf a xs)).run.Yields t' (.error failure) := by
  induction n generalizing a t ts e with
  | zero =>
    cases (Program.yields_done_iff.1 h).2
    exact ⟨[], trivial, rfl, fun _ he => by cases he⟩
  | succ n ih =>
    obtain ⟨t₁, t₂, found, rfl, h₁, h₂⟩ := Program.yields_bind_iff.1 h
    cases found with
    | error f =>
      cases (Program.yields_done_iff.1 h₂).2
      refine ⟨[], trivial, rfl, fun failure he => ?_⟩
      obtain rfl : f = failure := Option.some.inj he
      exact ⟨t₁, (List.prefix_append _ _).isInfix, h₁⟩
    | ok found =>
      cases found with
      | none =>
        cases (Program.yields_done_iff.1 h₂).2
        exact ⟨[], trivial, rfl, fun _ he => by cases he⟩
      | some found =>
        obtain ⟨b, x⟩ := found
        obtain ⟨t₃, t₄, rest, rfl, h₃, h₄⟩ := Program.yields_bind_iff.1 h₂
        obtain ⟨ts', e'⟩ := rest
        cases (Program.yields_done_iff.1 h₄).2
        have hinfix : t₃ <:+: t₁ ++ (t₃ ++ t₄) := ⟨t₁, t₄, by simp⟩
        obtain ⟨xs, hxs, rfl, hend⟩ := ih h₃ fun t' a b e ht' => hR t' a b e (ht'.trans hinfix)
        refine ⟨⟨x, b⟩ :: xs, ⟨hR t₁ a b x (List.prefix_append _ _).isInfix h₁, hxs⟩, rfl, ?_⟩
        intro failure he
        obtain ⟨t', ht', hfails⟩ := hend failure he
        exact ⟨t', ht'.trans hinfix, by rwa [lastOf_cons]⟩

/-- What loading ends with when the storage answers `answer`. -/
def loaded (r : Register) (answer : Except StorageFailure (Option Bytes)) : Except Failure Account :=
  (answer.mapError .storage).bind r.read

theorem yields_load {res : Except Failure Account} (h : (r.load).run.Yields t res) :
    ∃ answer, t = [⟨.load r.key, answer⟩] ∧ res = loaded r answer := by
  rcases Action.yields_bind h with ⟨e, he, rfl⟩ | ⟨t₁, t₂, item, rfl, h₁, h₂⟩
  · obtain ⟨answer, he, hr⟩ := Action.yields_ofProgram_iff.1 he
    refine ⟨answer, Query.yields_program_iff.1 he, ?_⟩
    rw [loaded, ← hr]
    rfl
  · obtain rfl := Action.yields_load_ok_iff.1 h₁
    obtain ⟨rfl, rfl⟩ := Action.yields_liftM_iff.1 h₂
    exact ⟨.ok item, rfl, rfl⟩

/-- What a pass does while it keeps the others waiting. -/
def catchUp (version : ContractVersion) (r : Register) : Action Nat := do
  let a ← r.load
  advance version r (stepsLeft a) 0 a

theorem pass_eq (version : ContractVersion) (r : Register) :
    pass version r = Action.exclusive (catchUp version r) := rfl

end History

/-- What a pass asks that keeps the account under `key`. -/
def Query.IsOfPass (key : String) : Query → Prop
  | .load k | .store k _ => k = key
  | .notify _ | .acquire | .release => True
  | q => q.IsLookup

theorem Query.IsLookup.isOfPass {q : Query} (h : q.IsLookup) (key : String) : q.IsOfPass key := by
  cases q <;> first | exact h | exact h.elim

namespace History

variable {version : ContractVersion} {r : Register}

section Confined

variable {K : Query → Prop}

theorem confined_save (hs : ∀ item, K (.store r.key item)) (a : Account) :
    (r.save a).run.Confined K := by
  unfold Register.save
  split
  · exact Action.confined_bind (Action.confined_throw _) fun _ => Action.confined_store (hs _)
  · exact Action.confined_store (hs _)

theorem confined_advance (hl : ∀ q : Query, q.IsLookup → K q) (hs : ∀ item, K (.store r.key item))
    (hn : ∀ x, K (.notify (.transaction x))) (fuel applied : Nat) (a : Account) :
    (advance version r fuel applied a).run.Confined K := by
  induction fuel generalizing applied a with
  | zero => exact Action.confined_pure _
  | succ fuel ih =>
    refine Action.confined_bind (fun t q h => hl q (confined_next? a t q h)) fun found => ?_
    cases found with
    | none => exact Action.confined_pure _
    | some found =>
      refine Action.confined_bind (confined_save hs _) fun _ => ?_
      exact Action.confined_bind (Action.confined_notify (hn _)) fun _ => ih _ _

/-- Catching up only reads the chain, keeps the account and tells of its steps. -/
theorem confined_catchUp (hl : ∀ q : Query, q.IsLookup → K q) (hload : K (.load r.key))
    (hs : ∀ item, K (.store r.key item)) (hn : ∀ x, K (.notify (.transaction x))) :
    (catchUp version r).run.Confined K := by
  refine Action.confined_bind ?_ fun a => confined_advance hl hs hn _ _ a
  exact Action.confined_bind (Action.confined_load hload) fun item => Action.confined_liftM _

end Confined

theorem confined_pass : (pass version r).run.Confined (Query.IsOfPass r.key) := by
  rw [pass_eq]
  exact Action.confined_exclusive trivial trivial
    (confined_catchUp (fun _ h => h.isOfPass r.key) rfl (fun _ => rfl) fun _ => trivial)

/-! ## What a pass stores -/

variable {R : Account → NoteEvent → Account → Prop} {t : Trace} {key : String} {item : Bytes}

/-- Saving asks nothing but to store the account. -/
theorem asks_save {q : Query} {b : Account} (h : (r.save b).run.Asks t q) :
    t = [] ∧ q = .store r.key (r.item b) := by
  have hstore : ∀ t', (Action.store r.key (r.item b)).run.Asks t' q →
      t' = [] ∧ q = .store r.key (r.item b) :=
    fun t' h => Query.asks_program_iff.1 (Action.asks_ofProgram_iff.1 h)
  unfold Register.save at h
  split at h
  · rcases Action.asks_bind h with h | ⟨_, _, _, _, h, _⟩
    · exact absurd h (by simp)
    · simp at h
  · exact hstore t h

/-- What a walk is about to store is the account after some steps. -/
theorem asks_advance {fuel applied : Nat} {a : Account}
    (h : (advance version r fuel applied a).run.Asks t (.store key item))
    (hR : ∀ t' a b e, t' <:+: t → (next? version a).run.Yields t' (.ok (some (b, e))) → R a e b) :
    key = r.key ∧ ∃ xs x, Follows R a (xs ++ [x]) ∧ item = r.item x.account := by
  induction fuel generalizing applied a t with
  | zero => exact absurd h (by simp [advance])
  | succ fuel ih =>
    rcases Action.asks_bind h with h₁ | ⟨t₁, t', found, rfl, h₁, h'⟩
    · exact (confined_next? a _ _ h₁).elim
    cases found with
    | none => exact absurd h' (by simp)
    | some found =>
      obtain ⟨b, e⟩ := found
      have hstep : R a e b := hR t₁ a b e (List.prefix_append _ _).isInfix h₁
      rcases Action.asks_bind h' with h₂ | ⟨t₂, t₃, u, rfl, -, h''⟩
      · obtain ⟨-, hq⟩ := asks_save h₂
        cases hq
        exact ⟨rfl, [], ⟨e, b⟩, ⟨hstep, trivial⟩, rfl⟩
      rcases Action.asks_bind h'' with h₃ | ⟨t₄, t₅, u', rfl, -, h₄⟩
      · exact (Action.confined_notify (K := fun q => q ≠ .store key item) (by simp) _ _ h₃ rfl).elim
      have hrest : t₅ <:+: t₁ ++ (t₂ ++ (t₄ ++ t₅)) := ⟨t₁ ++ t₂ ++ t₄, [], by simp⟩
      obtain ⟨hkey, xs, x, hx, hitem⟩ := ih h₄ fun t' a b e ht' => hR t' a b e (ht'.trans hrest)
      exact ⟨hkey, ⟨e, b⟩ :: xs, x, ⟨hstep, hx⟩, hitem⟩

/-- What a pass is about to store is the account after some steps from the one that was loaded. -/
theorem asks_pass (h : (pass version r).run.Asks t (.store key item))
    (hR : ∀ t' a b e, t' <:+: t → (next? version a).run.Yields t' (.ok (some (b, e))) → R a e b) :
    key = r.key ∧ ∃ loaded a xs x,
      (⟨.load r.key, .ok loaded⟩ : Exchange surroundings) ∈ t ∧ r.read loaded = .ok a ∧
      Follows R a (xs ++ [x]) ∧ item = r.item x.account := by
  rw [pass_eq] at h
  rcases Action.asks_exclusive h with hq | hq | ⟨t', ht', h'⟩
  · cases hq
  · cases hq
  rcases Action.asks_bind h' with h₁ | ⟨t₁, t₂, a, rfl, h₁, h₂⟩
  · have hload : r.load.run.Confined fun q : Query => q ≠ .store key item :=
      Action.confined_bind (Action.confined_load (by simp)) fun _ => Action.confined_liftM _
    exact (hload _ _ h₁ rfl).elim
  · obtain ⟨answer, rfl, hr⟩ := yields_load h₁
    cases answer with
    | error e => cases hr
    | ok loaded =>
      obtain ⟨hkey, xs, x, hx, hitem⟩ := asks_advance h₂ fun t'' a b e ht'' =>
        hR t'' a b e ((ht''.trans (List.suffix_append _ _).isInfix).trans ht')
      exact ⟨hkey, loaded, a, xs, x, ht'.subset (by simp), hr.symm, hx, hitem⟩

end History

end ShieldedWallet
