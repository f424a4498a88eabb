import ShieldedWallet.Proofs.Simulation.Plain

/-!
# Programs that only ask

A program that neither stores, sends nor has a call encoded leaves a plain world as it was, but for what
is counted and noted down, and for the roots that the ledger hands out. So it ends as it does with a
world that stands still.
-/

namespace ShieldedWallet

/-- A question that leaves the answers to all such questions as they were. -/
def Query.IsReading : Query → Prop
  | .contract (.encode ..) | .store .. | .submit _ | .relayer (.submit _) => False
  | _ => True

/-- A pass reads and stores. -/
theorem Query.IsOfPass.isReading {q : Query} {key : String} (h : q.IsOfPass key) :
    q.IsReading ∨ ∃ k item, q = .store k item := by
  cases q with
  | store k item => exact .inr ⟨k, item, rfl⟩
  | contract q => cases q <;> first | exact .inl trivial | exact h.elim
  | relayer q => exact h.elim
  | submit tx => exact h.elim
  | _ => exact .inl trivial

namespace Simulation

/-- The ledgers differ in the known roots at most, and `l'` knows those of `l`. -/
def Ledger.Alike (l l' : Ledger) : Prop :=
  ∃ roots calls, l' = { l with roots := roots ++ l.roots, calls }

namespace Ledger.Alike

variable {l l' l'' : Ledger}

theorem refl (l : Ledger) : l.Alike l := ⟨[], l.calls, rfl⟩

theorem trans (h : l.Alike l') (h' : l'.Alike l'') : l.Alike l'' := by
  obtain ⟨roots, calls, rfl⟩ := h
  obtain ⟨roots', calls', rfl⟩ := h'
  exact ⟨roots' ++ roots, calls', by simp⟩

theorem version_eq (h : l.Alike l') : l'.version = l.version := by
  obtain ⟨roots, calls, rfl⟩ := h
  rfl

theorem leaves_eq (h : l.Alike l') : l'.leaves = l.leaves := by
  obtain ⟨roots, calls, rfl⟩ := h
  rfl

theorem blocks_eq (h : l.Alike l') : l'.blocks = l.blocks := by
  obtain ⟨roots, calls, rfl⟩ := h
  rfl

theorem encoded_eq (h : l.Alike l') : l'.encoded = l.encoded := by
  obtain ⟨roots, calls, rfl⟩ := h
  rfl

theorem roots_subset (h : l.Alike l') : l.roots ⊆ l'.roots := by
  obtain ⟨roots, calls, rfl⟩ := h
  exact List.subset_append_right _ _

end Ledger.Alike

theorem Ledger.alike_answer {q : ContractQuery} (l : Ledger) (hq : (Query.contract q).IsReading) :
    l.Alike (l.answer q).2 := by
  cases q with
  | path index =>
    simp only [answer, path?]
    cases l.leaves[index.toNat]? with
    | none => exact ⟨[], l.calls + 1, rfl⟩
    | some leaf => exact ⟨[_], l.calls + 1, rfl⟩
  | encode m version sender c => exact hq.elim
  | rate k => cases k <;> exact ⟨[], l.calls + 1, rfl⟩
  | _ => exact ⟨[], l.calls + 1, rfl⟩

theorem Ledger.Alike.answer_eq {l l' : Ledger} {q : ContractQuery} (h : l.Alike l')
    (hq : (Query.contract q).IsReading) : (l'.answer q).1 = (l.answer q).1 := by
  obtain ⟨roots, calls, rfl⟩ := h
  cases q with
  | path index =>
    simp only [answer, path?]
    cases l.leaves[index.toNat]? <;> rfl
  | encode m version sender c => exact hq.elim
  | rate k => cases k <;> rfl
  | _ => rfl

/-- A path that is handed out ends in a root that is known from then on. -/
theorem Ledger.root_known {l : Ledger} {index : UInt64} {path : List Scalar}
    (h : (l.answer (.path index)).1 = .ok path) :
    ∃ root, path.getLast? = some root ∧ root ∈ (l.answer (.path index)).2.roots := by
  simp only [answer, path?] at h ⊢
  cases hleaf : l.leaves[index.toNat]? with
  | none => simp [hleaf] at h
  | some leaf =>
    simp only [hleaf, Option.map_some, Except.ok.injEq] at h ⊢
    exact ⟨merkleRoot (pathNodes leaf index), by simp [← h], List.mem_cons_self⟩

namespace World

/-- The worlds differ in what is counted and noted down, and in the known roots, at most. -/
structure Alike (w w' : World) : Prop where
  plain : w'.Plain
  storages_eq : w'.storages = w.storages
  fee_eq : w'.relayer.fee = w.relayer.fee
  ledger : w.ledger.Alike w'.ledger

variable {c storage : Nat} {w w' w'' : World} {α : Type} {p : Program surroundings α}

theorem Plain.alike (hw : w.Plain) : w.Alike w := ⟨hw, rfl, rfl, .refl _⟩

theorem Alike.trans (h : w.Alike w') (h' : w'.Alike w'') : w.Alike w'' where
  plain := h'.plain
  storages_eq := h'.storages_eq.trans h.storages_eq
  fee_eq := h'.fee_eq.trans h.fee_eq
  ledger := h.ledger.trans h'.ledger

theorem Plain.alike_answer {q : Query} (c storage : Nat) (hw : w.Plain) (hq : q.IsReading) :
    w.Alike (World.answer c storage q w).2 := by
  have hplain : (World.answer c storage q w).2.Plain := hw.answer q
  cases q with
  | prover q =>
    rw [hw.answer_prover] at hplain ⊢
    exact ⟨hplain, rfl, rfl, .refl _⟩
  | contract q =>
    rw [hw.answer_contract] at hplain ⊢
    exact ⟨hplain, rfl, rfl, Ledger.alike_answer _ hq⟩
  | store key item => exact hq.elim
  | submit tx => exact hq.elim
  | relayer q =>
    rw [hw.answer_relayer] at hplain ⊢
    cases q with
    | submit r => exact hq.elim
    | _ => exact ⟨hplain, rfl, rfl, .refl _⟩
  | _ =>
    rw [hw.answer_eq] at hplain ⊢
    exact ⟨hplain, rfl, rfl, .refl _⟩

theorem Alike.answer_eq {q : Query} (hw : w.Plain) (h : w.Alike w') (hq : q.IsReading) :
    (World.answer c storage q w').1 = (World.answer c storage q w).1 := by
  have hw' := h.plain
  cases q with
  | prover q => rw [hw.answer_prover, hw'.answer_prover]
  | contract q =>
    rw [hw.answer_contract, hw'.answer_contract]
    exact h.ledger.answer_eq hq
  | load key => rw [hw.answer_load, hw'.answer_load, h.storages_eq]
  | store key item => exact hq.elim
  | submit tx => exact hq.elim
  | relayer q =>
    rw [hw.answer_relayer, hw'.answer_relayer]
    cases q with
    | submit r => exact hq.elim
    | address => rfl
    | quote =>
      simp only [askRelayer]
      rw [h.fee_eq]
  | contractAddress =>
    rw [hw.answer_eq, hw'.answer_eq]
    rfl
  | _ => rfl

/-- The answers of a world that stands still. -/
def oracle (c storage : Nat) (w : World) : Oracle surroundings := fun q =>
  (World.answer c storage q w).1

/-- A program that only asks ends as it does with a world that stands still. -/
theorem Alike.run_reading (c storage : Nat) (hw : w.Plain) (h : w.Alike w')
    (hp : p.Confined Query.IsReading) :
    w.Alike (p.run (World.answer c storage) w').2 ∧
      (p.run (World.answer c storage) w').1 = p.eval (oracle c storage w) := by
  induction p generalizing w' with
  | done a => exact ⟨h, rfl⟩
  | ask q next ih =>
    have hafter := h.trans (h.plain.alike_answer c storage hp.head)
    have hsame : (World.answer c storage q w').1 = oracle c storage w q := h.answer_eq hw hp.head
    obtain ⟨halike, heval⟩ := ih _ hafter (hp.tail _)
    refine ⟨halike, ?_⟩
    rw [Program.run_ask, heval, hsame]
    rfl

theorem Plain.run_reading (c storage : Nat) (hw : w.Plain) (hp : p.Confined Query.IsReading) :
    ∃ w', w.Alike w' ∧ p.run (World.answer c storage) w = (p.eval (oracle c storage w), w') := by
  obtain ⟨halike, heval⟩ := hw.alike.run_reading c storage hw hp
  exact ⟨_, halike, Prod.ext heval rfl⟩

theorem Plain.ledger_alike {key : String} (c storage : Nat) (hw : w.Plain)
    (hp : p.Confined (Query.IsOfPass key)) :
    w.ledger.Alike (p.run (World.answer c storage) w).2.ledger := by
  induction p generalizing w with
  | done a => exact .refl _
  | ask q next ih =>
    have hfirst : w.ledger.Alike (World.answer c storage q w).2.ledger := by
      rcases hp.head.isReading with hq | ⟨k, item, rfl⟩
      · exact (hw.alike_answer c storage hq).ledger
      · rw [hw.answer_store]
        exact .refl _
    exact hfirst.trans (ih _ (hw.answer q) (hp.tail _))

theorem Plain.oracle_prover (hw : w.Plain) (q : ProverQuery) :
    oracle c storage w (.prover q) = simulated q := by
  rw [oracle, hw.answer_prover]

theorem Plain.oracle_path {index : UInt64} {leaf : Scalar} (hw : w.Plain)
    (hleaf : w.ledger.leaves[index.toNat]? = some leaf) :
    oracle c storage w (.contract (.path index)) = .ok
      (Ledger.pathNodes leaf index ++ [merkleRoot (Ledger.pathNodes leaf index)]) := by
  rw [oracle, hw.answer_contract]
  simp only [askLedger, onLedger, Ledger.answer, Ledger.path?, hleaf]
  rfl

/-- The root of a path that a program was given is known when it has ended. -/
theorem Plain.root_known {index : UInt64} {path : List Scalar} (hw : w.Plain)
    (hp : p.Confined Query.IsReading)
    (hx : (⟨.contract (.path index), .ok path⟩ : Exchange surroundings) ∈
      p.trace (World.answer c storage) w) :
    ∃ root, path.getLast? = some root ∧ root ∈ (p.run (World.answer c storage) w).2.ledger.roots := by
  induction p generalizing w with
  | done a => simp [Program.trace] at hx
  | ask q next ih =>
    have hw₁ : (World.answer c storage q w).2.Plain := hw.answer q
    rcases List.mem_cons.1 hx with hhead | htail
    · -- the root is known right after the question, and roots are never forgotten
      obtain ⟨halike, -⟩ := hw₁.alike.run_reading c storage hw₁
        (hp.tail (World.answer c storage q w).1)
      obtain ⟨rfl, ha⟩ := Exchange.mk.inj hhead
      have hpath := eq_of_heq ha
      have hroots := halike.ledger.roots_subset
      have hask : World.answer c storage (.contract (.path index)) w = w.askLedger (.path index) :=
        hw.answer_contract _
      rw [hask] at hpath
      obtain ⟨root, hlast, hmem⟩ := Ledger.root_known hpath.symm
      refine ⟨root, hlast, hroots ?_⟩
      rw [hask]
      exact hmem
    · exact ih _ hw₁ (hp.tail _) htail

end World

end Simulation

end ShieldedWallet
