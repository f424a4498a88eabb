import Mathlib.Data.Finset.Card
import ShieldedWallet.Proofs.History.Applying
import ShieldedWallet.Proofs.Simulation.Acting

/-!
# Walks end

A walk goes on as long as the ledger answers, and what it asks next depends on what it has found. On
a ledger that stands still it ends nevertheless: a step is found under a registered hash, and if the
search hashes of an account tell its nonces apart, no later step is found under the same one. The
bound that a pass and a replay put on their steps is never reached, so they end as they would without
it.
-/

namespace ShieldedWallet

namespace History

/-! ## Walks without a bound -/

section

variable {σ : Type} {env : Environment surroundings σ} {version : ContractVersion}
  {act : Account → NoteEvent → Action Unit}

/-- A walk from the account and the state on, with no bound on its steps. It takes the steps, doing
`act` on each of them, and ends because there is no further one or because something fails. -/
inductive Walks (env : Environment surroundings σ) (version : ContractVersion)
    (act : Account → NoteEvent → Action Unit) :
    Account → σ → List Step → Option Failure → σ → Prop where
  /-- There is no further step. -/
  | last {a : Account} {s s' : σ} (h : (next? version a).run.run env s = (.ok none, s')) :
      Walks env version act a s [] none s'
  /-- The next step cannot be looked up. -/
  | lookup {a : Account} {s s' : σ} {failure : Failure}
      (h : (next? version a).run.run env s = (.error failure, s')) :
      Walks env version act a s [] (some failure) s'
  /-- The action on the next step fails. -/
  | act {a b : Account} {e : NoteEvent} {s s₁ s' : σ} {failure : Failure}
      (h : (next? version a).run.run env s = (.ok (some (b, e)), s₁))
      (hact : (act b e).run.run env s₁ = (.error failure, s')) :
      Walks env version act a s [] (some failure) s'
  /-- The next step is taken. -/
  | step {a b : Account} {e : NoteEvent} {s s₁ s₂ s' : σ} {xs : List Step}
      {failure : Option Failure}
      (h : (next? version a).run.run env s = (.ok (some (b, e)), s₁))
      (hact : (act b e).run.run env s₁ = (.ok (), s₂))
      (hrest : Walks env version act b s₂ xs failure s') :
      Walks env version act a s (⟨e, b⟩ :: xs) failure s'

theorem leads_of_run {a b : Account} {e : NoteEvent} {s s' : σ}
    (h : (next? version a).run.run env s = (.ok (some (b, e)), s')) : e.Leads a b := by
  have hyields := Program.yields_trace env (next? version a).run s
  rw [h] at hyields
  exact (yields_next? hyields).leads

theorem Walks.follows {a : Account} {s s' : σ} {xs : List Step} {failure : Option Failure}
    (h : Walks env version act a s xs failure s') : Follows (fun a e b => e.Leads a b) a xs := by
  induction h with
  | last _ => trivial
  | lookup _ => trivial
  | act _ _ => trivial
  | step h _ _ ih => exact ⟨leads_of_run h, ih⟩

/-- What a pass does on a step: it stores the account and tells the owner. -/
def keep (r : Register) (b : Account) (e : NoteEvent) : Action Unit := do
  r.save b
  Action.notify (.transaction e.transaction)

/-- What a walk of `n` steps ends with. -/
def ending (n : Nat) : Option Failure → Except Failure Nat
  | none => .ok n
  | some failure => .error failure

variable {r : Register} {a b : Account} {e : NoteEvent} {s s' : σ} {n applied : Nat}
  {failure : Option Failure} {xs : List Step}

theorem run_advance_step (h : (next? version a).run.run env s = (.ok (some (b, e)), s')) :
    (advance version r (n + 1) applied a).run.run env s =
      (keep r b e >>= fun _ => advance version r n (applied + 1) b).run.run env s' := by
  rw [advance, Action.run_bind_ok h, keep, bind_assoc]

/-- A pass does what the walk does, unless it may take too few steps. -/
theorem Walks.run_advance
    (h : Walks env version (keep r) a s xs failure s') (hn : xs.length ≤ n) :
    (advance version r (n + 1) applied a).run.run env s =
      (ending (applied + xs.length) failure, s') := by
  induction h generalizing n applied with
  | last h =>
    rw [advance, Action.run_bind_ok h]
    rfl
  | lookup h =>
    rw [advance, Action.run_bind_error h]
    rfl
  | act h hact =>
    rw [run_advance_step h, Action.run_bind_error hact]
    rfl
  | @step a b e s s₁ s₂ s' xs failure h hact hrest ih =>
    obtain ⟨n, rfl⟩ := Nat.exists_eq_add_one_of_ne_zero (Nat.ne_zero_of_lt hn)
    rw [run_advance_step h, Action.run_bind_ok hact, ih (Nat.le_of_succ_le_succ hn), List.length_cons]
    congr 2
    omega

/-- A replay does what the walk does, unless it may take too few steps. -/
theorem Walks.run_replayFrom
    (h : Walks env version (fun _ _ => pure ()) a s xs failure s') (hn : xs.length ≤ n) :
    (replayFrom version (n + 1) a).run env s =
      ((xs.map fun x => x.event.transaction, failure), s') := by
  induction h generalizing n with
  | last h =>
    rw [replayFrom, Program.bind_eq, Program.run_bind, h]
    rfl
  | lookup h =>
    rw [replayFrom, Program.bind_eq, Program.run_bind, h]
    rfl
  | act _ hact => cases hact
  | @step a b e s s₁ s₂ s' xs failure h hact hrest ih =>
    cases hact
    obtain ⟨n, rfl⟩ := Nat.exists_eq_add_one_of_ne_zero (Nat.ne_zero_of_lt hn)
    rw [replayFrom, Program.bind_eq, Program.run_bind, h]
    show ((replayFrom version (n + 1) b).bind _).run env s₁ = _
    rw [Program.run_bind, ih (Nat.le_of_succ_le_succ hn)]
    rfl

/-- The steps that a pass or a replay may take are more than those of any walk. -/
theorem Walks.stepsLeft_eq (h : Walks env version act a s xs failure s') :
    ∃ n, stepsLeft a = n + 1 ∧ xs.length ≤ n := by
  have hlt := h.follows.length_lt
  obtain ⟨n, hn⟩ := Nat.exists_eq_add_one_of_ne_zero (Nat.ne_zero_of_lt hlt)
  exact ⟨n, hn, by omega⟩

/-- From an account that has been loaded, a pass catches up with the whole walk. -/
theorem Walks.run_catchUp {s₀ : σ}
    (h : Walks env version (keep r) a s xs failure s') (hload : r.load.run.run env s₀ = (.ok a, s)) :
    (catchUp version r).run.run env s₀ = (ending xs.length failure, s') := by
  obtain ⟨n, hsteps, hn⟩ := h.stepsLeft_eq
  rw [catchUp, Action.run_bind_ok hload, hsteps, h.run_advance hn, Nat.zero_add]

/-- A replay goes through the whole walk. -/
theorem Walks.run_replay {id : Scalar}
    (h : Walks env version (fun _ _ => pure ()) (.unopened id) s xs failure s') :
    (replay version id).run env s = ((xs.map fun x => x.event.transaction, failure), s') := by
  obtain ⟨n, hsteps, hn⟩ := h.stepsLeft_eq
  rw [replay, hsteps, h.run_replayFrom hn]

end

end History

namespace Simulation

open History (IsSearchHash Walks ending keep)

variable {f : Oracle proving} {version : ContractVersion} {l : Ledger} {a b : Account} {e : NoteEvent}

/-! ## What is left to be found -/

/-- The search hashes of the account `id` tell its nonces apart. -/
def Separates (f : Oracle proving) (id : Scalar) : Prop :=
  ∀ a b h, a.id = id → b.id = id → IsSearchHash f a h → IsSearchHash f b h → a.nonce = b.nonce

open Classical in
/-- The registered hashes that are search hashes of the account, now or after further steps. -/
noncomputable def ahead (f : Oracle proving) (l : Ledger) (a : Account) : Finset Scalar :=
  l.hashes.toFinset.filter fun h =>
    ∃ b, b.id = a.id ∧ a.nonce.toNat ≤ b.nonce.toNat ∧ IsSearchHash f b h

open Classical in
theorem mem_ahead_iff {h : Scalar} : h ∈ ahead f l a ↔
    h ∈ l.hashes ∧ ∃ b, b.id = a.id ∧ a.nonce.toNat ≤ b.nonce.toNat ∧ IsSearchHash f b h := by
  rw [ahead, Finset.mem_filter, List.mem_toFinset]

theorem card_ahead_le (f : Oracle proving) (l : Ledger) (a : Account) :
    (ahead f l a).card ≤ l.hashes.toFinset.card := by
  classical
  refine Finset.card_le_card fun h hh => ?_
  exact List.mem_toFinset.2 (mem_ahead_iff.1 hh).1

theorem ahead_congr {l' : Ledger} (h : l.blocks = l'.blocks) : ahead f l a = ahead f l' a := by
  rw [ahead, ahead, Ledger.hashes, Ledger.hashes, h]

/-- A hash with a block is registered. -/
theorem Ledger.mem_hashes {h : Scalar} {block : UInt64} (hblock : l.nullifierBlock? h = some block) :
    h ∈ l.hashes := by
  by_contra hmem
  have hnone : l.nullifierBlock? h = none := by
    rw [Ledger.nullifierBlock?_eq_none_iff]
    rintro x hx rfl
    exact hmem (List.mem_map_of_mem hx)
  rw [hnone] at hblock
  cases hblock

/-- A step is found under a registered search hash. -/
theorem Next.searchHash (h : Next f version l a e b) : ∃ hash ∈ l.hashes, IsSearchHash f a hash := by
  obtain ⟨t, hyields, hanswers⟩ := Program.yields_eval (reading f l) (History.next? version a).run
  rw [h] at hyields
  have ht : Trace.AnsweredBy f t := fun q x hx => hanswers _ hx
  obtain ⟨hash, block, es, hblock, -, hsearch⟩ := (History.yields_next? hyields).answered
  have hfound : some block = l.nullifierBlock? hash := Except.ok.inj (hanswers _ hblock)
  exact ⟨hash, Ledger.mem_hashes hfound.symm, (hsearch f ht).1⟩

/-- Each step leaves fewer hashes to be found. -/
theorem Next.card_ahead_lt (h : Next f version l a e b) (hsep : Separates f a.id) :
    (ahead f l b).card < (ahead f l a).card := by
  obtain ⟨hash, hmem, hsearch⟩ := h.searchHash
  have hid := h.leads.id_eq
  have hnonce := h.leads.nonce_eq
  refine Finset.card_lt_card (Finset.ssubset_iff_of_subset ?_ |>.2 ⟨hash, ?_, ?_⟩)
  · intro x hx
    obtain ⟨hx, c, hc, hle, hs⟩ := mem_ahead_iff.1 hx
    exact mem_ahead_iff.2 ⟨hx, c, hc.trans hid, by omega, hs⟩
  · exact mem_ahead_iff.2 ⟨hmem, a, rfl, Nat.le_refl _, hsearch⟩
  · intro hb
    obtain ⟨-, c, hc, hle, hs⟩ := mem_ahead_iff.1 hb
    have heq := hsep a c hash rfl (hc.trans hid) hsearch hs
    rw [← heq] at hle
    omega

/-! ## Walks on a ledger that stands still -/

variable {env : Environment surroundings World} {P : World → Prop} {w : World} {c storage : Nat}

/-- What is found in a run is a step on the ledger, which is left as it is. -/
theorem Serves.run_next? (hs : Serves f env P) (hw : P w) {w₁ : World}
    {res : Except Failure (Option (Account × NoteEvent))}
    (hrun : (History.next? version a).run.run env w = (res, w₁)) :
    P w₁ ∧ w₁.ledger.blocks = w.ledger.blocks ∧
      ∀ b e, res = .ok (some (b, e)) → Next f version w.ledger a e b := by
  obtain ⟨hw₁, hblocks, hread⟩ := hs.run_quiet (p := (History.next? version a).run)
    (fun t q hq => (History.confined_next? a t q hq).isQuiet) hw
  have hyields := Program.yields_trace env (History.next? version a).run w
  rw [hrun] at hw₁ hblocks hyields
  refine ⟨hw₁, hblocks, ?_⟩
  rintro b e rfl
  exact next_of_yields hyields fun x hx hl => ⟨w.ledger, .refl _, hread x hx hl⟩

/-- A walk that adds no block to the ledger ends, after at most as many steps as hashes are left to be
found. -/
theorem Serves.exists_walks (version : ContractVersion) (act : Account → NoteEvent → Action Unit)
    (hs : Serves f env P) (hact : ∀ b e, (act b e).run.Confined Query.IsQuiet)
    (hsep : Separates f a.id) (hw : P w) :
    ∃ xs failure w', Walks env version act a w xs failure w' ∧
      xs.length ≤ (ahead f w.ledger a).card := by
  -- by induction on the number of the hashes that are left
  generalize hcard : (ahead f w.ledger a).card = n
  induction n using Nat.strong_induction_on generalizing a w with
  | _ n ih =>
    subst hcard
    rcases hrun : (History.next? version a).run.run env w with ⟨res, w₁⟩
    obtain ⟨hw₁, hblocks, hnext⟩ := hs.run_next? hw hrun
    rcases res with failure | _ | ⟨b, e⟩
    · exact ⟨[], _, w₁, .lookup hrun, Nat.zero_le _⟩
    · exact ⟨[], _, w₁, .last hrun, Nat.zero_le _⟩
    obtain ⟨hw₂, hblocks', -⟩ := hs.run_quiet (hact b e) hw₁
    rcases hdone : (act b e).run.run env w₁ with ⟨res, w₂⟩
    rw [hdone] at hw₂ hblocks'
    cases res with
    | error failure => exact ⟨[], _, w₂, .act hrun hdone, Nat.zero_le _⟩
    | ok u =>
      have hstep := hnext b e rfl
      have hlt := hstep.card_ahead_lt hsep
      rw [← ahead_congr (hblocks'.trans hblocks)] at hlt
      obtain ⟨xs, failure, w', hwalk, hlength⟩ := ih _ hlt (hstep.leads.id_eq ▸ hsep) hw₂ rfl
      refine ⟨⟨e, b⟩ :: xs, failure, w', .step hrun hdone hwalk, ?_⟩
      rw [List.length_cons]
      omega

theorem quiet_keep (r : Register) (b : Account) (e : NoteEvent) :
    (keep r b e).run.Confined Query.IsQuiet :=
  Action.confined_bind (History.confined_save (fun _ => trivial) b) fun _ =>
    Action.confined_notify trivial

theorem World.run_pass (version : ContractVersion) (r : Register) (w : World) :
    (History.pass version r).run.run (World.answerBy f c storage) w =
      (History.catchUp version r).run.run (World.answerBy f c storage) w := by
  rw [History.pass_eq, Action.exclusive_run]
  show ((History.catchUp version r).run.bind Action.released).run (World.answerBy f c storage) w = _
  rw [Program.run_bind]
  rfl

/-- On a ledger that stands still, whatever is registered there and whatever is stored, a pass and a
replay end like a walk without a bound on its steps, and the walk takes at most as many steps as
hashes are registered, if the search hashes tell the nonces of the account apart. -/
theorem walks_end (c storage : Nat) (version : ContractVersion) (r : Register)
    (hsep : Separates f r.id) (hw : w.Undisturbed) :
    let env := World.answerBy f c storage
    (match r.read (w.storages storage r.key) with
      | .error failure => (History.pass version r).run.run env w = (.error failure, w)
      | .ok a => ∃ xs failure w', Walks env version (keep r) a w xs failure w' ∧
          xs.length ≤ w.ledger.hashes.toFinset.card ∧
          (History.pass version r).run.run env w = (ending xs.length failure, w')) ∧
    ∃ xs failure w', Walks env version (fun _ _ => pure ()) (.unopened r.id) w xs failure w' ∧
      xs.length ≤ w.ledger.hashes.toFinset.card ∧
      (History.replay version r.id).run env w =
        ((xs.map fun x => x.event.transaction, failure), w') := by
  intro env
  have hs : Serves f env World.Undisturbed := World.serves_answerBy f c storage
  constructor
  · have hload := hw.run_load f c storage r
    rw [World.run_pass]
    cases ha : r.read (w.storages storage r.key) with
    | error failure =>
      rw [ha] at hload
      exact Action.run_bind_error hload
    | ok a =>
      rw [ha] at hload
      have hid : a.id = r.id := Register.id_of_read ha
      obtain ⟨xs, failure, w', hwalk, hlength⟩ :=
        hs.exists_walks version (keep r) (quiet_keep r) (hid ▸ hsep) hw
      exact ⟨xs, failure, w', hwalk, Nat.le_trans hlength (card_ahead_le f _ a),
        hwalk.run_catchUp hload⟩
  · obtain ⟨xs, failure, w', hwalk, hlength⟩ := hs.exists_walks version (fun _ _ => pure ())
      (a := .unopened r.id) (fun _ _ => Action.confined_pure _) hsep hw
    exact ⟨xs, failure, w', hwalk, Nat.le_trans hlength (card_ahead_le f _ _), hwalk.run_replay⟩

theorem toNat_numbered {h : Scalar} (hs : IsSearchHash numbering a h) (ha : a.id = 0) :
    h.toNat = a.nonce.toNat := by
  cases a with
  | unopened id =>
    obtain rfl : id = h := Except.ok.inj hs
    obtain rfl : id = 0 := ha
    rfl
  | opened holding =>
    obtain ⟨h0, secrets, hsecrets, hh⟩ := hs
    obtain rfl := Except.ok.inj hsecrets
    obtain rfl := Except.ok.inj hh
    have hpos : holding.nonce.toNat ≠ 0 := fun hn => h0 (UInt64.toNat_inj.1 hn)
    have hpred : (holding.nonce - 1).toNat = holding.nonce.toNat - 1 :=
      UInt64.toNat_sub_of_le _ _ (UInt64.le_iff_toNat_le.2 (Nat.one_le_iff_ne_zero.2 hpos))
    have hlt : holding.nonce.toNat < Scalar.modulus :=
      Nat.lt_trans holding.nonce.toNat_lt (by decide)
    show ((holding.nonce - 1).toNat + 1) % Scalar.modulus = holding.nonce.toNat
    rw [hpred, Nat.sub_add_cancel (Nat.one_le_iff_ne_zero.2 hpos), Nat.mod_eq_of_lt hlt]

/-- The search hashes of the account 0 are its nonces. -/
theorem separates_numbering : Separates numbering 0 := by
  intro a b h ha hb hsa hsb
  exact UInt64.toNat_inj.1 ((toNat_numbered hsa ha).symm.trans (toNat_numbered hsb hb))

/-- A world in which the account 0 has been opened, and then a deposit has been announced twice. -/
def depositedTwice : World :=
  { World.new .direct 1 with
    ledger := Ledger.repeatLastEvent
      { blocks := [⟨0, [announcement .opening 100 numbered0 0 1]⟩,
          ⟨1, [announcement .deposit 5 numbered0 1 2]⟩] } }

/-- Two hashes are registered, and a pass of the account 0 from nothing stored fails in the block of
the second one. -/
theorem walks_end_depositedTwice :
    depositedTwice.ledger.hashes.toFinset.card = 2 ∧
    ((History.pass .supported ⟨"accountState", 0, 0⟩).run.run (World.answerBy numbering 0 0)
      depositedTwice).1 = .error (.history (.eventCount 2 2)) ∧
    ∃ xs failure w', Walks (World.answerBy numbering 0 0) .supported
        (keep ⟨"accountState", 0, 0⟩) (.unopened 0) depositedTwice xs failure w' ∧
      xs.length ≤ 2 ∧
      (History.pass .supported ⟨"accountState", 0, 0⟩).run.run (World.answerBy numbering 0 0)
        depositedTwice = (ending xs.length failure, w') := by
  have hcard : depositedTwice.ledger.hashes.toFinset.card = 2 := by decide
  have hw : depositedTwice.Undisturbed := ⟨rfl, rfl⟩
  have hpass := (walks_end 0 0 .supported ⟨"accountState", 0, 0⟩ separates_numbering hw).1
  rw [hcard] at hpass
  exact ⟨hcard, rfl, hpass⟩

end Simulation

end ShieldedWallet
