import ShieldedWallet.Proofs.History.Passes
import ShieldedWallet.Proofs.Simulation.Growth

/-!
# The simulated surroundings

Each question of a wallet changes a small part of the world. A storage of the world keeps its items,
whatever faults are planned.
-/

namespace ShieldedWallet.Simulation.World

variable {c storage : Nat}

/-- The surroundings of a wallet with `f` in the place of the prover. -/
def answerBy (f : Oracle proving) (c storage : Nat) : Environment surroundings World
  | .prover q, w => (f q, w)
  | q, w => answer c storage q w

theorem answer_of_fault {q : Query} {a : q.Answer} {w w' : World}
    (h : w.meetFault q = (some a, w')) : answer c storage q w = (a, w') := by
  simp only [answer, h]

theorem answer_of_no_fault {q : Query} {w w' : World} (h : w.meetFault q = (none, w')) :
    answer c storage q w = answerTrue c storage q w' := by
  simp only [answer, h]

/-! ## Storages -/

theorem storages_meetFault (w : World) (q : Query) : (w.meetFault q).2.storages = w.storages := by
  cases q <;> rfl

theorem storages_askProver (w : World) (q : ProverQuery) :
    (w.askProver q).2.storages = w.storages := by
  unfold askProver
  split <;> rfl

/-- A transaction changes the ledger, and how many transactions have been sent. -/
theorem execute_eq (w : World) (tx : TransactionRequest) :
    ∃ sent, w.execute tx =
      ((w.ledger.execute tx).1, { w with ledger := (w.ledger.execute tx).2, sent }) := by
  unfold execute
  obtain ⟨r, l⟩ := w.ledger.execute tx
  cases r with
  | ok hash => exact ⟨w.sent + 1, rfl⟩
  | error reason => exact ⟨w.sent, rfl⟩

theorem storages_execute (w : World) (tx : TransactionRequest) :
    (w.execute tx).2.storages = w.storages := by
  obtain ⟨sent, he⟩ := execute_eq w tx
  rw [he]

theorem storages_askRelayer (w : World) (q : RelayerQuery) :
    (w.askRelayer q).2.storages = w.storages := by
  cases q <;> rfl

/-- Only storing changes the storages. -/
theorem storages_answerTrue {q : Query} (w : World) (hq : ∀ key x, q ≠ .store key x) :
    (answerTrue c storage q w).2.storages = w.storages := by
  cases q with
  | prover q =>
    simp only [answerTrue]
    split
    · rfl
    · exact storages_askProver w q
  | contract q =>
    simp only [answerTrue]
    split <;> rfl
  | store key x => exact absurd rfl (hq key x)
  | relayer q => exact storages_askRelayer w q
  | submit tx => exact storages_execute w tx
  | _ => rfl

theorem storages_answer {q : Query} (w : World) (hq : ∀ key x, q ≠ .store key x) :
    (answer c storage q w).2.storages = w.storages := by
  have hm := storages_meetFault w q
  obtain ⟨a, w', h⟩ : ∃ a w', w.meetFault q = (a, w') := ⟨_, _, rfl⟩
  rw [h] at hm
  cases a with
  | some a => rw [answer_of_fault h, hm]
  | none => rw [answer_of_no_fault h, storages_answerTrue w' hq, hm]

/-- Every wallet leaves the storages of others alone. -/
theorem storages_answer_of_ne {number : Nat} (hne : number ≠ storage) (q : Query) (w : World) :
    (answer c storage q w).2.storages number = w.storages number := by
  by_cases hq : ∃ k x, q = .store k x
  · obtain ⟨k, x, rfl⟩ := hq
    have hm := storages_meetFault w (.store k x)
    obtain ⟨a, w', h⟩ : ∃ a w', w.meetFault (.store k x) = (a, w') := ⟨_, _, rfl⟩
    rw [h] at hm
    cases a with
    | some a => rw [answer_of_fault h, hm]
    | none =>
      rw [answer_of_no_fault h]
      simp only [answerTrue, storeItem, setStorage, if_neg hne]
      rw [hm]
  · rw [storages_answer w fun k x h => hq ⟨k, x, h⟩]

theorem storages_run_of_ne {α : Type} {number : Nat} (hne : number ≠ storage)
    (p : Program surroundings α) (w : World) :
    (p.run (answer c storage) w).2.storages number = w.storages number := by
  induction p generalizing w with
  | done a => rfl
  | ask q next ih => rw [Program.run_ask, ih, storages_answer_of_ne hne]

theorem meetFault_load {w w' : World} {key : String} {a : Except StorageFailure (Option Bytes)}
    (h : w.meetFault (.load key) = (some a, w')) : ∃ e, a = .error e := by
  simp only [meetFault, Prod.mk.injEq, Option.map_eq_some_iff] at h
  obtain ⟨⟨e, -, rfl⟩, -⟩ := h
  exact ⟨e, rfl⟩

theorem meetFault_store {w w' : World} {key : String} {x : Bytes} {a : Except StorageFailure Unit}
    (h : w.meetFault (.store key x) = (some a, w')) : ∃ e, a = .error e := by
  simp only [meetFault, Prod.mk.injEq, Option.map_eq_some_iff] at h
  obtain ⟨⟨e, -, rfl⟩, -⟩ := h
  exact ⟨e, rfl⟩

/-- A storage of the world keeps what is stored in it. -/
theorem keeps_answer (c storage : Nat) (key : String) :
    Keeps (answer c storage) key fun w => w.storages storage key where
  load w := by
    refine ⟨?_, by rw [storages_answer w (by simp)]⟩
    have hm := storages_meetFault w (.load key)
    obtain ⟨a, w', h⟩ : ∃ a w', w.meetFault (.load key) = (a, w') := ⟨_, _, rfl⟩
    rw [h] at hm
    cases a with
    | some a => exact .inr (by rw [answer_of_fault h]; exact meetFault_load h)
    | none =>
      rw [answer_of_no_fault h]
      exact .inl (congrArg Except.ok (congrArg (fun s => s storage key) hm))
  store x w := by
    have hm := storages_meetFault w (.store key x)
    obtain ⟨a, w', h⟩ : ∃ a w', w.meetFault (.store key x) = (a, w') := ⟨_, _, rfl⟩
    rw [h] at hm
    cases a with
    | some a =>
      rw [answer_of_fault h]
      exact .inr ⟨meetFault_store h, congrArg (fun s => s storage key) hm⟩
    | none =>
      rw [answer_of_no_fault h]
      exact .inl ⟨rfl, by simp [answerTrue, storeItem, setStorage]⟩
  other q w hl hs := by
    by_cases hq : ∃ k x, q = .store k x
    · obtain ⟨k, x, rfl⟩ := hq
      have hne : ¬ key = k := fun h => hs x (by rw [h])
      have hm := storages_meetFault w (.store k x)
      obtain ⟨a, w', h⟩ : ∃ a w', w.meetFault (.store k x) = (a, w') := ⟨_, _, rfl⟩
      rw [h] at hm
      cases a with
      | some a =>
        rw [answer_of_fault h]
        exact congrArg (fun s => s storage key) hm
      | none =>
        rw [answer_of_no_fault h]
        simp only [answerTrue, storeItem, setStorage, if_true, if_neg hne]
        exact congrArg (fun s => s storage key) hm
    · rw [storages_answer w fun k x h => hq ⟨k, x, h⟩]

/-- The prover does not matter for what a storage keeps. -/
theorem keeps_answerBy (f : Oracle proving) (c storage : Nat) (key : String) :
    Keeps (answerBy f c storage) key fun w => w.storages storage key where
  load := (keeps_answer c storage key).load
  store := (keeps_answer c storage key).store
  other q w hl hs := by
    cases q with
    | prover q => rfl
    | _ => exact (keeps_answer c storage key).other _ w hl hs

/-! ## Undisturbed worlds -/

/-- No faults are planned, and no answers are substituted. -/
structure Undisturbed (w : World) : Prop where
  faults : w.faults = {}
  substitutes : w.substitutes = {}

variable {w : World} {f : Oracle proving}

theorem Undisturbed.meetFault_eq (h : w.Undisturbed) (q : Query) : w.meetFault q = (none, w) := by
  obtain ⟨link, channel, prover, ledger, relayer, sent, rates, storages, clients, faults, subs⟩ := w
  obtain ⟨rfl, rfl⟩ := h
  cases q <;> rfl

theorem Undisturbed.answer_eq (h : w.Undisturbed) (q : Query) :
    answer c storage q w = answerTrue c storage q w :=
  answer_of_no_fault (h.meetFault_eq q)

theorem Undisturbed.answer_contract (h : w.Undisturbed) (q : ContractQuery) :
    answer c storage (.contract q) w = w.askLedger q := by
  have hs : w.substitutes.contractAnswer? q = none := by
    rw [h.substitutes]
    cases q <;> rfl
  rw [h.answer_eq]
  simp only [answerTrue, hs]

theorem undisturbed_askProver (h : w.Undisturbed) (q : ProverQuery) :
    (w.askProver q).2.Undisturbed := by
  unfold askProver
  split <;> exact ⟨h.faults, h.substitutes⟩

theorem ledger_askProver (w : World) (q : ProverQuery) : (w.askProver q).2.ledger = w.ledger := by
  unfold askProver
  split <;> rfl

theorem Undisturbed.answer (h : w.Undisturbed) (q : Query) :
    (answer c storage q w).2.Undisturbed := by
  rw [h.answer_eq]
  cases q with
  | prover q =>
    simp only [answerTrue]
    split
    · exact h
    · exact undisturbed_askProver h q
  | contract q =>
    simp only [answerTrue]
    split
    · exact h
    · exact ⟨h.faults, h.substitutes⟩
  | relayer q => cases q <;> exact ⟨h.faults, h.substitutes⟩
  | submit tx =>
    obtain ⟨sent, he⟩ := execute_eq w tx
    rw [answerTrue, he]
    exact ⟨h.faults, h.substitutes⟩
  | store key x => exact ⟨h.faults, h.substitutes⟩
  | notify n => exact ⟨h.faults, h.substitutes⟩
  | _ => exact h

/-- A question lets the ledger grow at most. -/
theorem Undisturbed.grows_answer (h : w.Undisturbed) (q : Query) :
    w.ledger.Grows (World.answer c storage q w).2.ledger := by
  rw [h.answer_eq]
  cases q with
  | prover q =>
    simp only [answerTrue]
    split
    · exact .refl _
    · simp only [ledger_askProver]
      exact .refl _
  | contract q =>
    simp only [answerTrue]
    split
    · exact .refl _
    · exact Ledger.grows_answer w.ledger q
  | relayer q =>
    cases q with
    | submit r => exact Ledger.grows_relay r w.ledger
    | _ => exact .refl _
  | submit tx =>
    obtain ⟨sent, he⟩ := execute_eq w tx
    rw [answerTrue, he]
    exact Ledger.grows_execute w.ledger tx
  | _ => exact .refl _

theorem Undisturbed.answerBy (h : w.Undisturbed) (q : Query) :
    (answerBy f c storage q w).2.Undisturbed := by
  cases q with
  | prover q => exact h
  | _ => exact @Undisturbed.answer c storage w h _

theorem Undisturbed.grows_answerBy (h : w.Undisturbed) (q : Query) :
    w.ledger.Grows (World.answerBy f c storage q w).2.ledger := by
  cases q with
  | prover q => exact .refl _
  | _ => exact @Undisturbed.grows_answer c storage w h _

end ShieldedWallet.Simulation.World
