import ShieldedWallet.Proofs.Simulation.Surroundings

/-!
# Reading the ledger

What a wallet reads from a ledger that stands still, and what remains true of it while the ledger
grows. A step that has been found, though the ledger grew meanwhile, is a step on every later ledger.
-/

namespace ShieldedWallet

/-! ## What a step reads -/

namespace History

variable {version : ContractVersion} {a b : Account} {e : NoteEvent} {t : Trace}

/-- Everything that a successful step has looked up was found. -/
theorem found_of_yields_next? (h : (next? version a).run.Yields t (.ok (some (b, e)))) :
    ∀ x ∈ t, (∃ q r, x = ⟨.prover q, r⟩) ∨
      (∃ h block, x = ⟨.contract (.nullifierBlock h), .ok (some block)⟩) ∨
      ∃ block es, es ≠ [] ∧ x = ⟨.contract (.events block), .ok es⟩ := by
  let Proving : Query → Prop := fun q => ∃ p, q = .prover p
  have hproving : ∀ {t : Trace}, (∀ x ∈ t, Proving x.query) →
      ∀ x ∈ t, ∃ q r, x = (⟨.prover q, r⟩ : Exchange surroundings) := by
    intro t ht x hx
    obtain ⟨p, hp⟩ := ht x hx
    obtain ⟨q, r⟩ := x
    obtain rfl : q = .prover p := hp
    exact ⟨p, r, rfl⟩
  have hK : ∀ q, Proving (.prover q) := fun q => ⟨q, rfl⟩
  obtain ⟨t₁, t₁', key, rfl, hkey, h₁⟩ := Action.yields_bind_ok h
  obtain ⟨t₂, t₂', hash, rfl, hhash, h₂⟩ := Action.yields_bind_ok h₁
  obtain ⟨t₃, t₃', found, rfl, hblock, h₃⟩ := Action.yields_bind_ok h₂
  obtain rfl := Action.yields_prover_ok_iff.1 hhash
  obtain rfl := Action.yields_contract_ok_iff.1 hblock
  cases found with
  | none => exact absurd (Action.yields_pure_iff.1 h₃).2 (by simp)
  | some block =>
    obtain ⟨t₄, t₄', es, rfl, hevents, h₄⟩ := Action.yields_bind_ok h₃
    obtain ⟨t₅, t₅', e', rfl, hselect, h₅⟩ := Action.yields_bind_ok h₄
    obtain ⟨t₆, t₆', b', rfl, happly, h₆⟩ := Action.yields_bind_ok h₅
    obtain ⟨rfl, -⟩ := Action.yields_pure_iff.1 h₆
    obtain rfl := Action.yields_contract_ok_iff.1 hevents
    have hne : es ≠ [] := by
      rintro rfl
      have hcontinuing := (yields_select hselect).2
      simp [NoteEvent.continuing] at hcontinuing
    have h₁' := hproving (hkey.confined (confined_searchKey hK a))
    have h₅' := hproving (hselect.confined (confined_select hK a block es))
    have h₆' := hproving (happly.confined (NoteEvent.confined_apply hK e'))
    -- all parts of a step but the two look-ups ask the prover only
    intro x hx
    simp only [List.mem_append, List.mem_singleton, List.not_mem_nil, or_false] at hx
    rcases hx with hx | rfl | rfl | rfl | hx | hx
    · exact .inl (h₁' x hx)
    · exact .inl ⟨_, _, rfl⟩
    · exact .inr (.inl ⟨_, _, rfl⟩)
    · exact .inr (.inr ⟨_, _, hne, rfl⟩)
    · exact .inl (h₅' x hx)
    · exact .inl (h₆' x hx)

end History

namespace Simulation

/-- What a wallet reads with the prover `f` from a ledger that stands still. Other questions are not
answered. -/
def reading (f : Oracle proving) (l : Ledger) : Oracle surroundings
  | .prover q => f q
  | .contract q => (l.answer q).1
  | .contractAddress => Ledger.address
  | .load _ => .ok none
  | .store _ _ => .ok ()
  | .relayer _ => .error (.response "")
  | .submit _ => .error ""
  | .notify _ | .acquire | .release => ()

variable {f : Oracle proving} {l l' : Ledger} {version : ContractVersion} {a b : Account}
  {e : NoteEvent} {t : Trace}

theorem reading_eq (hb : l.blocks = l'.blocks) {q : Query} (hq : q.IsLookup) :
    reading f l q = reading f l' q := by
  cases q with
  | contract q =>
    cases q with
    | nullifierBlock h =>
      show Except.ok _ = Except.ok _
      simp only [Ledger.nullifierBlock?, hb]
    | events block =>
      show Except.ok _ = Except.ok _
      simp only [Ledger.events, Ledger.block?, hb]
    | _ => exact absurd hq id
  | _ => rfl

/-- On the ledger `l` the event `e` leads from `a` to `b`. -/
def Next (f : Oracle proving) (version : ContractVersion) (l : Ledger) (a : Account) (e : NoteEvent)
    (b : Account) : Prop :=
  (History.next? version a).run.eval (reading f l) = .ok (some (b, e))

/-- A step that was found while the ledger grew up to `l` is a step on `l`. -/
theorem next_of_yields (h : (History.next? version a).run.Yields t (.ok (some (b, e))))
    (ht : ∀ x ∈ t, x.query.IsLookup → ∃ l', l'.Grows l ∧ x.answer = reading f l' x.query) :
    Next f version l a e b := by
  refine h.eval_eq fun x hx => ?_
  obtain ⟨l', hg, hx'⟩ := ht x hx (h.confined (History.confined_next? a) x hx)
  -- a look-up that has found something finds the same on the later ledger
  rcases History.found_of_yields_next? h x hx with ⟨q, r, rfl⟩ | ⟨k, block, rfl⟩ | ⟨block, es, hne, rfl⟩
  · exact hx'.symm
  · have hk : l'.nullifierBlock? k = some block := (Except.ok.inj hx').symm
    show Except.ok (l.nullifierBlock? k) = _
    rw [hg.nullifierBlock? hk]
  · have hes : es = l'.events block := Except.ok.inj hx'
    show Except.ok (l.events block) = Except.ok es
    rw [hg.events (by rwa [← hes]), hes]

theorem Next.mono (h : Next f version l a e b) (hg : l.Grows l') : Next f version l' a e b := by
  obtain ⟨t, ht, hanswer⟩ := Program.yields_eval (reading f l) (History.next? version a).run
  rw [h] at ht
  exact next_of_yields ht fun x hx _ => ⟨l, hg, hanswer x hx⟩

theorem Next.leads (h : Next f version l a e b) : e.Leads a b := by
  obtain ⟨t, ht, -⟩ := Program.yields_eval (reading f l) (History.next? version a).run
  rw [h] at ht
  exact (History.yields_next? ht).leads

theorem Next.unique {b' : Account} {e' : NoteEvent} (h : Next f version l a e b)
    (h' : Next f version l a e' b') : e = e' ∧ b = b' := by
  unfold Next at h h'
  rw [h] at h'
  cases h'
  exact ⟨rfl, rfl⟩

open History (Step Follows lastOf)

/-- Of two walks from one account, one is the beginning of the other. -/
theorem Next.follows_prefix {xs ys : List Step} (hx : Follows (Next f version l) a xs)
    (hy : Follows (Next f version l) a ys) (hlen : xs.length ≤ ys.length) : xs <+: ys := by
  induction xs generalizing a ys with
  | nil => exact List.nil_prefix
  | cons x xs ih =>
    cases ys with
    | nil => simp at hlen
    | cons y ys =>
      obtain ⟨x₁, x₂⟩ := x
      obtain ⟨y₁, y₂⟩ := y
      obtain ⟨rfl, rfl⟩ := hx.1.unique hy.1
      exact List.cons_prefix_cons.2 ⟨rfl, ih hx.2 hy.2 (by simpa using hlen)⟩

/-! ## Replaying -/

theorem eval_replayFrom_succ (o : Oracle surroundings) (n : Nat) (a : Account) :
    (History.replayFrom version (n + 1) a).eval o =
      match (History.next? version a).run.eval o with
      | .error failure => ([], some failure)
      | .ok none => ([], none)
      | .ok (some (b, e)) => (e.transaction :: ((History.replayFrom version n b).eval o).1,
          ((History.replayFrom version n b).eval o).2) := by
  rw [History.replayFrom, Program.bind_eq, Program.eval_bind]
  cases (History.next? version a).run.eval o with
  | error failure => rfl
  | ok found =>
    cases found with
    | none => rfl
    | some found =>
      simp only [Program.bind_eq, Program.eval_bind]
      rfl

/-- The replay goes through every walk, and then on from its last account. -/
theorem eval_replayFrom {xs : List Step} {n : Nat} (h : Follows (Next f version l) a xs)
    (hn : xs.length ≤ n) :
    (History.replayFrom version n a).eval (reading f l) =
      ((xs.map fun x => x.event.transaction) ++
        ((History.replayFrom version (n - xs.length) (lastOf a xs)).eval (reading f l)).1,
      ((History.replayFrom version (n - xs.length) (lastOf a xs)).eval (reading f l)).2) := by
  induction xs generalizing a n with
  | nil => rfl
  | cons x xs ih =>
    cases n with
    | zero => simp at hn
    | succ n =>
      have hx : (History.next? version a).run.eval (reading f l) =
          .ok (some (x.account, x.event)) := h.1
      rw [eval_replayFrom_succ, hx]
      simp only [ih h.2 (by simpa using hn), List.length_cons, History.lastOf_cons, List.map_cons,
        List.cons_append, Nat.add_sub_add_right]

/-- The replay of an account begins with every walk of it. -/
theorem prefix_replay {xs : List Step} {id : Scalar}
    (h : Follows (Next f version l) (.unopened id) xs) :
    (xs.map fun x => x.event.transaction) <+: ((History.replay version id).eval (reading f l)).1 := by
  have hlt := (h.mono fun _ _ _ hn => hn.leads).length_lt
  rw [History.replay, eval_replayFrom h (Nat.le_of_lt hlt)]
  exact List.prefix_append _ _

/-- The replay of an account is a walk of it that is not continued. -/
theorem eval_replay {xs : List Step} {id : Scalar}
    (h : Follows (Next f version l) (.unopened id) xs)
    (hlast : (History.next? version (lastOf (.unopened id) xs)).run.eval (reading f l) = .ok none) :
    (History.replay version id).eval (reading f l) =
      (xs.map fun x => x.event.transaction, none) := by
  have hlt := (h.mono fun _ _ _ hn => hn.leads).length_lt
  rw [History.replay, eval_replayFrom h (Nat.le_of_lt hlt)]
  obtain ⟨n, hn⟩ := Nat.exists_eq_add_of_lt hlt
  have hfuel : History.stepsLeft (.unopened id) - xs.length = n + 1 := by omega
  rw [hfuel, eval_replayFrom_succ, hlast]
  simp

/-! ## Serving from the ledger -/

end Simulation

/-- A question that adds no block to the ledger. -/
def Query.IsQuiet : Query → Prop
  | .submit _ | .relayer (.submit _) => False
  | _ => True

theorem Query.IsLookup.isQuiet {q : Query} (h : q.IsLookup) : q.IsQuiet := by
  cases q <;> trivial

/-- A pass adds no block. -/
theorem History.quiet_pass {version : ContractVersion} {r : Register} :
    (History.pass version r).run.Confined Query.IsQuiet := by
  intro t q hq
  have hq' := History.confined_pass t q hq
  cases q <;> trivial

theorem History.quiet_passes (version : ContractVersion) (r : Register) (n : Nat) :
    (History.passes version r n).Confined Query.IsQuiet := by
  induction n with
  | zero => exact Program.confined_done _
  | succ n ih => exact quiet_pass.bind fun _ => ih.bind fun _ => Program.confined_done _

theorem Wallet.quiet_sync (w : Wallet) : w.sync.run.Confined Query.IsQuiet :=
  Action.confined_reporting (fun _ => trivial) History.quiet_pass

namespace Simulation

/-- In the worlds `P` the environment gives the answers of the ledger and of the prover `f`, and lets
the ledger grow at most. -/
structure Serves (f : Oracle proving) (env : Environment surroundings World) (P : World → Prop) :
    Prop where
  stays : ∀ {q w}, P w → P (env q w).2
  grows : ∀ {q w}, P w → w.ledger.Grows (env q w).2.ledger
  quiet : ∀ {q w}, P w → q.IsQuiet → (env q w).2.ledger.blocks = w.ledger.blocks
  lookup : ∀ {q w}, P w → q.IsLookup → (env q w).1 = reading f w.ledger q

/-- Asking the contract changes neither the blocks nor the version. -/
theorem Ledger.unchanged_answer (l : Ledger) (q : ContractQuery) :
    (l.answer q).2.blocks = l.blocks ∧ (l.answer q).2.version = l.version := by
  cases q with
  | path index =>
    simp only [Ledger.answer, Ledger.path?]
    cases l.leaves[index.toNat]? <;> exact ⟨rfl, rfl⟩
  | encode m version sender c =>
    simp only [Ledger.answer]
    cases he : ({ l with calls := l.calls + 1 } : Ledger).encode m version c with
    | error e => exact ⟨rfl, rfl⟩
    | ok r =>
      obtain ⟨data, l'⟩ := r
      obtain ⟨-, c', -, -, rfl⟩ := Ledger.encode_eq_ok he
      exact ⟨rfl, rfl⟩
  | rate k => cases k <;> exact ⟨rfl, rfl⟩
  | _ => exact ⟨rfl, rfl⟩

namespace World

variable {c storage : Nat} {w : World}

theorem Undisturbed.unchanged_answer (h : w.Undisturbed) {q : Query} (hq : q.IsQuiet) :
    (World.answer c storage q w).2.ledger.blocks = w.ledger.blocks ∧
      (World.answer c storage q w).2.ledger.version = w.ledger.version := by
  cases q with
  | prover q =>
    rw [h.answer_eq]
    simp only [answerTrue]
    split
    · exact ⟨rfl, rfl⟩
    · simp only [ledger_askProver, and_self]
  | contract q =>
    rw [h.answer_contract]
    exact Ledger.unchanged_answer w.ledger q
  | relayer q =>
    rw [h.answer_eq]
    cases q with
    | submit r => exact hq.elim
    | _ => exact ⟨rfl, rfl⟩
  | submit tx => exact hq.elim
  | _ =>
    rw [h.answer_eq]
    exact ⟨rfl, rfl⟩

/-- An undisturbed world serves a wallet, whatever the prover is. -/
theorem serves_answerBy (f : Oracle proving) (c storage : Nat) :
    Serves f (answerBy f c storage) Undisturbed where
  stays h := h.answerBy _
  grows h := h.grows_answerBy _
  quiet {q w} h hq := by
    cases q with
    | prover q => rfl
    | _ => exact (@Undisturbed.unchanged_answer c storage w h _ hq).1
  lookup {q w} h hq := by
    cases q with
    | prover q => rfl
    | contract q =>
      show (answer c storage (.contract q) w).1 = (w.ledger.answer q).1
      rw [h.answer_contract]
      rfl
    | _ => exact hq.elim

end World

namespace Serves

open Program (Amid Confined)

variable {f : Oracle proving} {env : Environment surroundings World} {P : World → Prop} {α : Type}
  {p : Program surroundings α} {w w' : World} {t : Trace} {x : α}

/-- Everything that is looked up is read from some ledger on the way. The way is told by any relation
that holds along it. -/
theorem amid_rel (hs : Serves f env P) {move : World → World → Prop} {rel : Ledger → Ledger → Prop}
    (hrefl : ∀ l, rel l l) (htrans : ∀ l l' l'', rel l l' → rel l' l'' → rel l l'')
    (hq : ∀ q w, P w → rel w.ledger (env q w).2.ledger)
    (hm : ∀ w w', P w → move w w' → P w' ∧ rel w.ledger w'.ledger)
    (h : Amid env move p w t x w') (hw : P w) :
    P w' ∧ rel w.ledger w'.ledger ∧ ∀ x ∈ t, x.query.IsLookup →
      ∃ l, rel w.ledger l ∧ rel l w'.ledger ∧ x.answer = reading f l x.query := by
  induction h with
  | done a w => exact ⟨hw, hrefl _, by simp⟩
  | @ask q next w w' t a h ih =>
    obtain ⟨hw', hrel, ht⟩ := ih (hs.stays hw)
    have hfirst := hq q w hw
    refine ⟨hw', htrans _ _ _ hfirst hrel, fun y hy hl => ?_⟩
    rcases List.mem_cons.1 hy with rfl | hy
    · exact ⟨w.ledger, hrefl _, htrans _ _ _ hfirst hrel, hs.lookup hw hl⟩
    · obtain ⟨l, hbefore, hafter, ha⟩ := ht y hy hl
      exact ⟨l, htrans _ _ _ hfirst hbefore, hafter, ha⟩
  | move hmove _ ih =>
    obtain ⟨hw₁, hfirst⟩ := hm _ _ hw hmove
    obtain ⟨hw', hrel, ht⟩ := ih hw₁
    refine ⟨hw', htrans _ _ _ hfirst hrel, fun y hy hl => ?_⟩
    obtain ⟨l, hbefore, hafter, ha⟩ := ht y hy hl
    exact ⟨l, htrans _ _ _ hfirst hbefore, hafter, ha⟩

/-- Amid moves that let the ledger grow, everything that is looked up is read from some ledger on the
way. -/
theorem amid (hs : Serves f env P) {move : World → World → Prop}
    (hm : ∀ w w', P w → move w w' → P w' ∧ w.ledger.Grows w'.ledger)
    (h : Amid env move p w t x w') (hw : P w) :
    P w' ∧ w.ledger.Grows w'.ledger ∧ ∀ x ∈ t, x.query.IsLookup →
      ∃ l, l.Grows w'.ledger ∧ x.answer = reading f l x.query := by
  obtain ⟨hw', hg, ht⟩ := hs.amid_rel Ledger.Grows.refl (fun _ _ _ hg hg' => hg.trans hg')
    (fun q w hw => hs.grows (q := q) hw) hm h hw
  refine ⟨hw', hg, fun y hy hl => ?_⟩
  obtain ⟨l, -, hg, ha⟩ := ht y hy hl
  exact ⟨l, hg, ha⟩

/-- A run that adds no block reads from one ledger. -/
theorem run_quiet (hs : Serves f env P) (hp : p.Confined Query.IsQuiet) (hw : P w) :
    P (p.run env w).2 ∧ (p.run env w).2.ledger.blocks = w.ledger.blocks ∧
      ∀ x ∈ p.trace env w, x.query.IsLookup → x.answer = reading f w.ledger x.query := by
  induction p generalizing w with
  | done a => exact ⟨hw, rfl, by simp [Program.trace]⟩
  | ask q next ih =>
    have hq : q.IsQuiet := hp.head
    obtain ⟨hw', hb, ht⟩ := ih (env q w).1 (hp.tail _) (hs.stays hw)
    refine ⟨hw', hb.trans (hs.quiet hw hq), fun y hy hl => ?_⟩
    rcases List.mem_cons.1 hy with rfl | hy
    · exact hs.lookup hw hl
    · rw [ht y hy hl]
      exact reading_eq (hs.quiet hw hq) hl

/-- A program that only looks up ends as it does with the ledger standing still. -/
theorem run_eq_eval (hs : Serves f env P) (hp : p.Confined Query.IsLookup) (hw : P w) :
    (p.run env w).1 = p.eval (reading f w.ledger) := by
  obtain ⟨-, -, ht⟩ := hs.run_quiet (fun t q h => (hp t q h).isQuiet) hw
  have hy := Program.yields_trace env p w
  refine (hy.eval_eq fun x hx => ?_).symm
  exact (ht x hx (hy.confined hp x hx)).symm

end Serves

end Simulation

end ShieldedWallet
