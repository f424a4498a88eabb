import ShieldedWallet.Proofs.Simulation.Surroundings

/-!
# Accounts that share a storage

Several registers may keep their accounts under one key of one storage. A record names its account by
the hash of the identifier, so a register can tell whether the record is its own: of another one it
neither makes an account, nor does a pass ever replace it.
-/

namespace ShieldedWallet

open Simulation (World)

/-- The hash by which the stored record names its account, if there is a record. -/
def AccountRecord.owner? (item : Option Bytes) : Option Scalar :=
  (item.bind ofBytes?).map AccountRecord.idHash

namespace Register

open AccountRecord (owner?)

variable {r : Register} {item : Option Bytes}

theorem owner?_item (r : Register) (a : Account) : owner? (some (r.item a)) = some r.idHash := by
  have hrecord := AccountRecord.ofBytes?_toBytes (r := .ofAccount r.idHash a) rfl
  rw [owner?, item, Option.bind_some, hrecord]
  rfl

/-- Only a record of another account keeps a register from reading an account. -/
theorem read_eq_error_iff {e : Failure} :
    r.read item = .error e ↔ e = .foreignRecord ∧ ∃ h, owner? item = some h ∧ h ≠ r.idHash := by
  unfold read owner?
  cases item.bind AccountRecord.ofBytes? with
  | none => simp
  | some record =>
    by_cases hown : record.idHash = r.idHash
    · simp [hown]
    · simp [hown, eq_comm]

/-- The register is that of some signing key, made with the prover `f`. -/
def Made (f : Oracle proving) (key : String) (r : Register) : Prop :=
  ∃ signingKey chainId t, (ofKey signingKey chainId key).run.Yields t (.ok r) ∧
    Trace.AnsweredBy f t

variable {f : Oracle proving} {key : String}

theorem Made.eq (h : r.Made f key) : r.key = key ∧ f (.hash [r.id]) = .ok r.idHash := by
  obtain ⟨signingKey, chainId, t, h, ht⟩ := h
  obtain ⟨t₁, t', id, rfl, h₁, h'⟩ := Action.yields_bind_ok h
  obtain ⟨t₂, t₃, idHash, rfl, h₂, h₃⟩ := Action.yields_bind_ok h'
  obtain rfl := Action.yields_prover_ok_iff.1 h₂
  obtain ⟨rfl, hr⟩ := Action.yields_pure_iff.1 h₃
  cases hr
  exact ⟨rfl, ht.right.left.eq⟩

/-- Registers of one account recognise the same records. -/
theorem Made.idHash_eq {r' : Register} (h : r.Made f key) (h' : r'.Made f key) (hid : r'.id = r.id) :
    r'.idHash = r.idHash := by
  have hhash := h'.eq.2
  rw [hid, h.eq.2] at hhash
  exact (Except.ok.inj hhash).symm

/-- What one register of an account has stored is read by every other one. -/
theorem Made.read_item {r' : Register} (h : r.Made f key) (h' : r'.Made f key) (hid : r'.id = r.id)
    {a : Account} (ha : a.id = r.id) (hn : a.isUnopened = true ∨ a.nonce ≠ 0) :
    r'.read (some (r.item a)) = .ok a := by
  have hitem : r.item a = r'.item a := by
    rw [Register.item, Register.item, h.idHash_eq h' hid]
  rw [hitem]
  exact Register.read_item (ha.trans hid.symm) hn

/-- An account of another identifier is not saved. -/
theorem run_save_of_ne {σ : Type} {a : Account} (ha : a.id ≠ r.id)
    (env : Environment surroundings σ) (s : σ) :
    (r.save a).run.run env s = (.error .foreignRecord, s) := by
  rw [save, if_pos ha]
  rfl

end Register

/-! ## Storages that do not fail -/

/-- The environment keeps an item under the key, and neither handing it out nor replacing it fails. -/
structure Remembers {σ : Type} (env : Environment surroundings σ) (key : String)
    (item : σ → Option Bytes) : Prop extends Keeps env key item where
  load_eq : ∀ s, (env (.load key) s).1 = .ok (item s)
  store_eq : ∀ x s, (env (.store key x) s).1 = .ok ()

namespace Remembers

variable {σ : Type} {env : Environment surroundings σ} {item : σ → Option Bytes} {r : Register}

theorem item_store {key : String} (hm : Remembers env key item) (x : Bytes) (s : σ) :
    item (env (.store key x) s).2 = some x := by
  rcases hm.store x s with ⟨-, hitem⟩ | ⟨⟨e, he⟩, -⟩
  · exact hitem
  · rw [hm.store_eq x s] at he
    cases he

theorem run_load (hm : Remembers env r.key item) (s : σ) :
    r.load.run.run env s = (r.read (item s), (env (.load r.key) s).2) := by
  have hload : (Action.load r.key).run.run env s = (.ok (item s), (env (.load r.key) s).2) :=
    Action.run_ofProgram_ok (Prod.ext (hm.load_eq s) rfl)
  rw [Register.load, Action.run_bind_ok hload]
  rfl

theorem trace_load (hm : Remembers env r.key item) (s : σ) :
    r.load.run.trace env s = [⟨.load r.key, .ok (item s)⟩] := by
  have hload : (Action.load r.key).run.run env s = (.ok (item s), (env (.load r.key) s).2) :=
    Action.run_ofProgram_ok (Prod.ext (hm.load_eq s) rfl)
  have htrace : (Action.load r.key).run.trace env s = [⟨.load r.key, (env (.load r.key) s).1⟩] :=
    Action.trace_ofProgram _ _
  rw [Register.load, Action.trace_bind_ok hload, htrace, hm.load_eq s]
  rfl

theorem run_save (hm : Remembers env r.key item) {a : Account} (ha : a.id = r.id) (s : σ) :
    (r.save a).run.run env s = (.ok (), (env (.store r.key (r.item a)) s).2) := by
  rw [Register.save, if_neg (by simpa using ha)]
  exact Action.run_ofProgram_ok (Prod.ext (hm.store_eq _ s) rfl)

end Remembers

theorem Simulation.World.remembers_answerTrue (c storage : Nat) (key : String) :
    Remembers (World.answerTrue c storage) key fun w => w.storages storage key where
  load w := ⟨.inl rfl, rfl⟩
  store x w := .inl ⟨rfl, by simp [World.answerTrue, World.storeItem, World.setStorage]⟩
  other q w hl hs := by
    by_cases hq : ∃ k x, q = .store k x
    · obtain ⟨k, x, rfl⟩ := hq
      have hne : ¬ key = k := fun h => hs x (by rw [h])
      simp [World.answerTrue, World.storeItem, World.setStorage, hne]
    · rw [World.storages_answerTrue w fun k x h => hq ⟨k, x, h⟩]
  load_eq w := rfl
  store_eq x w := rfl

/-- The register that the simulated prover makes of a signing key. -/
def Register.simulated (signingKey : Hash256) (chainId : UInt64) (key : String) : Register where
  key := key
  id := Simulation.accountId signingKey chainId
  idHash := Simulation.hash [Simulation.accountId signingKey chainId]

theorem Register.made_simulated (signingKey : Hash256) (chainId : UInt64) (key : String) :
    (simulated signingKey chainId key).Made (Simulation.proverAnswer false) key := by
  have hyields : (ofKey signingKey chainId key).run.Yields
      [⟨.prover (.accountId signingKey chainId), .ok (Simulation.accountId signingKey chainId)⟩,
        ⟨.prover (.hash [Simulation.accountId signingKey chainId]),
          .ok (Simulation.hash [Simulation.accountId signingKey chainId])⟩]
      (.ok (simulated signingKey chainId key)) := .ask (.ask (.refl _))
  refine ⟨signingKey, chainId, _, hyields, fun q x hx => ?_⟩
  rcases List.mem_cons.1 hx with hx | hx
  · cases hx
    rfl
  · cases List.mem_singleton.1 hx
    rfl

/-! ## Passes over one key -/

namespace History

open AccountRecord (owner?)

/-- What is asked by a pass that finds the record of another account. -/
def refusal (key : String) (item : Option Bytes) : Trace :=
  [⟨.acquire, ()⟩, ⟨.load key, .ok item⟩, ⟨.release, ()⟩]

section Pass

variable {σ : Type} {env : Environment surroundings σ} {item : σ → Option Bytes} {r : Register}
  (version : ContractVersion) {s : σ}

/-- A pass that finds the record of another account goes no further. -/
theorem run_pass_of_foreign (hm : Remembers env r.key item) {h : Scalar}
    (ho : owner? (item s) = some h) (hne : h ≠ r.idHash) :
    ((pass version r).run.run env s).1 = .error .foreignRecord ∧
      (pass version r).run.trace env s = refusal r.key (item s) := by
  have hacquire : item (env .acquire s).2 = item s := hm.other .acquire s (by simp) (by simp)
  have hload : r.load.run.run env (env .acquire s).2 =
      (.error .foreignRecord, (env (.load r.key) (env .acquire s).2).2) := by
    rw [hm.run_load, hacquire, Register.read_eq_error_iff.2 ⟨rfl, h, ho, hne⟩]
  have hrun : (catchUp version r).run.run env (env .acquire s).2 =
      (.error .foreignRecord, (env (.load r.key) (env .acquire s).2).2) :=
    Action.run_bind_error hload
  have htrace : (catchUp version r).run.trace env (env .acquire s).2 =
      [⟨.load r.key, .ok (item s)⟩] := by
    rw [catchUp, Action.trace_bind_error hload, hm.trace_load, hacquire]
  rw [pass_eq, Action.exclusive_run]
  constructor
  · rw [Program.run_ask, Program.run_bind, hrun]
    rfl
  · rw [Program.trace, Program.trace_bind, htrace, hrun]
    rfl

theorem item_pass_of_foreign (hm : Remembers env r.key item) {h : Scalar}
    (ho : owner? (item s) = some h) (hne : h ≠ r.idHash) :
    item ((pass version r).run.run env s).2 = item s := by
  have hitem := (hm.toKeeps.run (pass version r).run s).eq
  rw [(run_pass_of_foreign version hm ho hne).2] at hitem
  exact hitem

/-- A pass leaves the record or replaces it by one of its own account. -/
theorem owner?_item_pass (hm : Remembers env r.key item) :
    item ((pass version r).run.run env s).2 = item s ∨
      owner? (item ((pass version r).run.run env s).2) = some r.idHash := by
  cases hread : r.read (item s) with
  | error e =>
    obtain ⟨-, h, ho, hne⟩ := Register.read_eq_error_iff.1 hread
    exact .inl (item_pass_of_foreign version hm ho hne)
  | ok a =>
    have hkeep := hm.toKeeps.run (pass version r).run s
    have hitem := hkeep.eq
    obtain ⟨xs, hw, -⟩ := walked_pass (R := fun a e b => e.Leads a b)
      (Program.yields_trace env (pass version r).run s) hkeep hread
      fun t' a b e _ h => (yields_next? h).leads
    rw [hw.stored_eq] at hitem
    by_cases hxs : xs = []
    · left
      rw [hitem, hxs]
      rfl
    · right
      rw [hitem, getLast?_items r a hxs, Option.some_or]
      exact Register.owner?_item r _

end Pass

/-! ## Sequences of passes -/

/-- A complete pass: whose it was, what it ended with, and what it asked. -/
structure Visit where
  register : Register
  result : Except Failure Nat
  trace : Trace

section Visits

variable {ι σ : Type} {env : ι → Environment surroundings σ} {key : String}
  {item : σ → Option Bytes}

/-- Complete passes one after another, each with any register of the key, in any of the environments
and for any version. In between others may do what leaves the item. -/
inductive Visits (env : ι → Environment surroundings σ) (key : String) (item : σ → Option Bytes) :
    σ → List Visit → σ → Prop where
  | nil (s : σ) : Visits env key item s [] s
  | move {s s₁ s' : σ} {vs : List Visit} (hitem : item s₁ = item s)
      (h : Visits env key item s₁ vs s') : Visits env key item s vs s'
  | pass (i : ι) (version : ContractVersion) {r : Register} (hr : r.key = key) {s s' : σ}
      {vs : List Visit} (h : Visits env key item ((pass version r).run.run (env i) s).2 vs s') :
      Visits env key item s
        (⟨r, ((pass version r).run.run (env i) s).1, (pass version r).run.trace (env i) s⟩ :: vs) s'

/-- A record that has an owner keeps it, and the passes of all other accounts are refused. -/
theorem Visits.owner?_eq (hm : ∀ i, Remembers (env i) key item) {s s' : σ} {vs : List Visit}
    (hv : Visits env key item s vs s') {h : Scalar} (ho : owner? (item s) = some h) :
    owner? (item s') = some h ∧ ∀ v ∈ vs, v.register.idHash ≠ h → v.result = .error .foreignRecord ∧
      ∃ x, owner? x = some h ∧ v.trace = refusal key x := by
  induction hv with
  | nil s => exact ⟨ho, by simp⟩
  | move hitem _ ih => exact ih (by rw [hitem, ho])
  | @pass i version r hr s s' vs hv ih =>
    subst hr
    have hm := hm i
    by_cases hown : r.idHash = h
    · have hpass : owner? (item ((History.pass version r).run.run (env i) s).2) = some h := by
        rcases owner?_item_pass version hm (s := s) with hitem | hitem
        · rw [hitem, ho]
        · rw [hitem, hown]
      obtain ⟨hlast, hrest⟩ := ih hpass
      refine ⟨hlast, fun v hv => ?_⟩
      rcases List.mem_cons.1 hv with rfl | hv
      · exact fun hne => absurd hown hne
      · exact hrest v hv
    · have hne : h ≠ r.idHash := fun heq => hown heq.symm
      have hitem := item_pass_of_foreign version hm ho hne
      obtain ⟨hlast, hrest⟩ := ih (by rw [hitem, ho])
      refine ⟨hlast, fun v hv => ?_⟩
      rcases List.mem_cons.1 hv with rfl | hv
      · obtain ⟨hresult, htrace⟩ := run_pass_of_foreign version hm ho hne
        exact fun _ => ⟨hresult, item s, ho, htrace⟩
      · exact hrest v hv

/-- The passes of other accounts leave a record as it is. -/
theorem Visits.item_eq (hm : ∀ i, Remembers (env i) key item) {s s' : σ} {vs : List Visit}
    (hv : Visits env key item s vs s') {h : Scalar} (ho : owner? (item s) = some h)
    (hne : ∀ v ∈ vs, v.register.idHash ≠ h) : item s' = item s := by
  induction hv with
  | nil s => rfl
  | move hitem _ ih => rw [ih (by rw [hitem, ho]) hne, hitem]
  | @pass i version r hr s s' vs hv ih =>
    subst hr
    have hr := hne _ List.mem_cons_self
    have hitem := item_pass_of_foreign version (hm i) ho (Ne.symm hr)
    rw [ih (by rw [hitem, ho]) fun v hv => hne v (List.mem_cons_of_mem _ hv), hitem]

/-- A register reads back exactly what it has saved, and the registers of other accounts see that the
record is not theirs. It saves no other account. A pass over the record of another account fails
without storing, telling or asking the chain anything. So whatever passes are made one after another,
a record keeps its owner and is left alone by the passes of all others. -/
theorem registers_isolated {f : Oracle proving} (hm : ∀ i, Remembers (env i) key item)
    {r : Register} (hr : r.Made f key) :
    (∀ (i : ι) (s : σ) (a : Account), a.id = r.id → (a.isUnopened = true ∨ a.nonce ≠ 0) →
      ∃ s', (r.save a).run.run (env i) s = (.ok (), s') ∧ owner? (item s') = some r.idHash ∧
        ∀ (j : ι) (s'' : σ) (r' : Register), item s'' = item s' → r'.Made f key →
          (r'.id = r.id → (r'.load.run.run (env j) s'').1 = .ok a) ∧
          (r'.idHash ≠ r.idHash → (r'.load.run.run (env j) s'').1 = .error .foreignRecord)) ∧
    (∀ (i : ι) (s : σ) (a : Account), a.id ≠ r.id →
      (r.save a).run.run (env i) s = (.error .foreignRecord, s)) ∧
    (∀ (i : ι) (version : ContractVersion) (s : σ) (h : Scalar),
      owner? (item s) = some h → h ≠ r.idHash →
        ((pass version r).run.run (env i) s).1 = .error .foreignRecord ∧
        (pass version r).run.trace (env i) s = refusal key (item s) ∧
        item ((pass version r).run.run (env i) s).2 = item s) ∧
    ∀ (s s' : σ) (vs : List Visit) (h : Scalar),
      Visits env key item s vs s' → owner? (item s) = some h →
        owner? (item s') = some h ∧
        (∀ v ∈ vs, v.register.idHash ≠ h → v.result = .error .foreignRecord ∧
          ∃ x, owner? x = some h ∧ v.trace = refusal key x) ∧
        ((∀ v ∈ vs, v.register.idHash ≠ h) → item s' = item s) := by
  obtain ⟨rfl, -⟩ := hr.eq
  refine ⟨fun i s a hid hn => ?_, fun i s a hid => Register.run_save_of_ne hid (env i) s,
    fun i version s h ho hne => ?_, fun s s' vs h hv ho => ?_⟩
  · have hsaved := (hm i).item_store (r.item a) s
    refine ⟨_, (hm i).run_save hid s, by rw [hsaved, Register.owner?_item],
      fun j s'' r' hitem hr' => ?_⟩
    have hm' : Remembers (env j) r'.key item := by
      rw [hr'.eq.1]
      exact hm j
    have hload : (r'.load.run.run (env j) s'').1 = r'.read (some (r.item a)) := by
      rw [hm'.run_load, hitem, hsaved]
    rw [hload]
    refine ⟨fun hid' => hr.read_item hr' hid' hid hn, fun hne => ?_⟩
    exact Register.read_eq_error_iff.2 ⟨rfl, _, Register.owner?_item r a, Ne.symm hne⟩
  · obtain ⟨hresult, htrace⟩ := run_pass_of_foreign version (hm i) ho hne
    exact ⟨hresult, htrace, item_pass_of_foreign version (hm i) ho hne⟩
  · obtain ⟨hlast, hrest⟩ := hv.owner?_eq hm ho
    exact ⟨hlast, hrest, hv.item_eq hm ho⟩

end Visits

/-- The signing key whose bytes are all `n`. -/
def uniformKey (n : UInt8) : Hash256 := Vector.replicate 32 n

/-- Two accounts over one storage of the simulation: the second one can neither read nor replace what
the first one has saved. -/
theorem registers_isolated_two_keys :
    ∃ s', ((Register.simulated (uniformKey 1) 1 "a").save
          (.opened ⟨Simulation.accountId (uniformKey 1) 1, 2, 1000000, 5, some 11⟩)).run.run
          (World.answerTrue 0 0) (World.new .direct 1) = (.ok (), s') ∧
      ((Register.simulated (uniformKey 1) 1 "a").load.run.run (World.answerTrue 0 0) s').1 =
        .ok (.opened ⟨Simulation.accountId (uniformKey 1) 1, 2, 1000000, 5, some 11⟩) ∧
      ((Register.simulated (uniformKey 2) 1 "a").load.run.run (World.answerTrue 1 0) s').1 =
        .error .foreignRecord ∧
      (((pass .supported (Register.simulated (uniformKey 2) 1 "a")).run.run
        (World.answerTrue 1 0) s').2.storages 0 "a") = s'.storages 0 "a" := by
  have hm : ∀ c, Remembers (World.answerTrue c 0) "a" fun w => w.storages 0 "a" :=
    fun c => World.remembers_answerTrue c 0 "a"
  have hne : (Register.simulated (uniformKey 2) 1 "a").idHash ≠
      (Register.simulated (uniformKey 1) 1 "a").idHash := by decide +kernel
  obtain ⟨hsave, -⟩ := registers_isolated hm (Register.made_simulated (uniformKey 1) 1 "a")
  obtain ⟨-, -, hpass, -⟩ := registers_isolated hm (Register.made_simulated (uniformKey 2) 1 "a")
  obtain ⟨s', hs', hitem, hload⟩ := hsave 0 (World.new .direct 1)
    (.opened ⟨Simulation.accountId (uniformKey 1) 1, 2, 1000000, 5, some 11⟩) rfl (.inr (by decide))
  refine ⟨s', hs', (hload 0 s' _ rfl (Register.made_simulated (uniformKey 1) 1 "a")).1 rfl,
    (hload 1 s' _ rfl (Register.made_simulated (uniformKey 2) 1 "a")).2 hne, ?_⟩
  exact (hpass 1 .supported s' _ hitem (Ne.symm hne)).2.2

end History

end ShieldedWallet
