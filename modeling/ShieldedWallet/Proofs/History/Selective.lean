import ShieldedWallet.Proofs.History.Untrusted

/-!
# Which events are told apart

Events are matched by their notes alone, and a note commits to a balance, not to the movement that has
led to it. So the true event of a movement is kept, and an event that claims another movement for the
same note is dropped if it claims another balance. The only thing that can keep it then is a collision
of the hash, among the very lists that the wallet hashes. Balances are hashed as field elements: two of
them that differ by a multiple of the modulus are one to the prover, and this says nothing of them.
-/

namespace ShieldedWallet

/-- For the prover `f`, `xs` and `ys` are different lists with one hash. -/
def Collision (f : Oracle proving) (xs ys : List Scalar) : Prop :=
  xs ≠ ys ∧ ∃ h, f (.hash xs) = .ok h ∧ f (.hash ys) = .ok h

namespace NoteEvent

/-- The balance that the event claims, if its movement applies to the account. -/
def balance? (a : Account) (e : NoteEvent) : Option UInt256 :=
  if e.movement.appliesTo a then e.movement.balanceAfter? a.balance e.amount else none

/-- The balance that the event claims, as it is hashed. -/
def residue? (a : Account) (e : NoteEvent) : Option Scalar := (e.balance? a).map .ofUInt256

/-- For the prover `f`, recomputing what the event claims hashes `xs` for the balance and `ys` for the
note. -/
def Hashes (f : Oracle proving) (version : ContractVersion) (a : Account) (e : NoteEvent)
    (xs ys : List Scalar) : Prop :=
  ∃ balance secrets arity h, e.balance? a = some balance ∧ f (.secrets a.id a.nonce) = .ok secrets ∧
    f .arity = .ok arity ∧ xs = Note.balanceInputs arity balance ∧ f (.hash xs) = .ok h ∧
    ys = Note.inputs version a.id secrets h

/-- For the prover `f`, the lists hashed for two events collide, those for the balances or those for
the notes. -/
def Collide (f : Oracle proving) (version : ContractVersion) (a : Account) (e e' : NoteEvent) : Prop :=
  ∃ xs ys xs' ys', e.Hashes f version a xs ys ∧ e'.Hashes f version a xs' ys' ∧
    (Collision f xs xs' ∨ Collision f ys ys')

variable {f : Oracle proving} {version : ContractVersion} {a next : Account} {e e' : NoteEvent}
  {t : Trace} {xs ys xs' ys' : List Scalar}

/-- An event matches if the list hashed for its note has its note as the hash. -/
theorem Matches.hashes (h : e.Matches f version a) :
    ∃ xs ys, e.Hashes f version a xs ys ∧ f (.hash ys) = .ok e.note := by
  obtain ⟨ha, -, balance, hb, secrets, arity, h, hs, hk, hh, hn⟩ := h
  have hb' : e.balance? a = some balance := by rw [balance?, if_pos ha, hb]
  exact ⟨_, _, ⟨balance, secrets, arity, h, hb', hs, hk, rfl, hh, rfl⟩, hn⟩

theorem Hashes.unique (h : e.Hashes f version a xs ys) (h' : e.Hashes f version a xs' ys') :
    xs = xs' ∧ ys = ys' := by
  obtain ⟨balance, s, k, x, hb, hs, hk, rfl, hx, rfl⟩ := h
  obtain ⟨balance', s', k', x', hb', hs', hk', rfl, hx', rfl⟩ := h'
  obtain rfl : balance = balance' := Option.some.inj (hb.symm.trans hb')
  obtain rfl : s = s' := Except.ok.inj (hs.symm.trans hs')
  obtain rfl : k = k' := Except.ok.inj (hk.symm.trans hk')
  obtain rfl : x = x' := Except.ok.inj (hx.symm.trans hx')
  exact ⟨rfl, rfl⟩

/-- Two events with one note that both match claim the same balance as it is hashed, or collide. -/
theorem Matches.residue_eq_or_collide (h : e.Matches f version a) (h' : e'.Matches f version a)
    (hnote : e'.note = e.note) : e'.residue? a = e.residue? a ∨ e.Collide f version a e' := by
  obtain ⟨xs, ys, hxy, hn⟩ := h.hashes
  obtain ⟨xs', ys', hxy', hn'⟩ := h'.hashes
  have hxy₀ := hxy
  have hxy₀' := hxy'
  obtain ⟨balance, s, k, x, hb, hs, hk, rfl, hx, rfl⟩ := hxy
  obtain ⟨balance', s', k', x', hb', hs', hk', rfl, hx', rfl⟩ := hxy'
  obtain rfl : s = s' := Except.ok.inj (hs.symm.trans hs')
  obtain rfl : k = k' := Except.ok.inj (hk.symm.trans hk')
  by_cases hres : Scalar.ofUInt256 balance = Scalar.ofUInt256 balance'
  · left
    rw [residue?, residue?, hb, hb', Option.map_some, Option.map_some, hres]
  · right
    refine ⟨_, _, _, _, hxy₀, hxy₀', ?_⟩
    by_cases hxx : x = x'
    · -- the balances have one hash
      left
      refine ⟨fun he => hres (List.cons.inj he).1, x, hx, ?_⟩
      rw [hx', hxx]
    · -- the balances have two hashes, and the notes made of them are one
      right
      refine ⟨fun he => hxx ?_, e.note, hn, ?_⟩
      · simpa [Note.inputs] using he
      · rw [hn', hnote]

/-- Events that claim the same balance as it is hashed never collide: the same lists are hashed for
them. -/
theorem not_collide_of_residue_eq (h : e'.residue? a = e.residue? a) :
    ¬ e.Collide f version a e' := by
  rintro ⟨xs, ys, xs', ys', ⟨balance, s, k, x, hb, hs, hk, rfl, hx, rfl⟩,
    ⟨balance', s', k', x', hb', hs', hk', rfl, hx', rfl⟩, hc⟩
  rw [residue?, residue?, hb, hb', Option.map_some, Option.map_some, Option.some.injEq] at h
  obtain rfl : s = s' := Except.ok.inj (hs.symm.trans hs')
  obtain rfl : k = k' := Except.ok.inj (hk.symm.trans hk')
  have hxs : Note.balanceInputs k balance' = Note.balanceInputs k balance := by
    rw [Note.balanceInputs, Note.balanceInputs, h]
  rw [hxs] at hx' hc
  obtain rfl : x = x' := Except.ok.inj (hx.symm.trans hx')
  rcases hc with hc | hc <;> exact hc.1 rfl

/-- The event that announces what the account becomes by its movement matches, if the movement
applies. -/
theorem matches_of_next? (ha : e.movement.appliesTo a = true)
    (h : (Note.next? version e.movement a e.amount).run.Yields t (.ok (some next)))
    (hn : next.note? = some e.note) (ht : t.AnsweredBy f) : e.Matches f version a := by
  obtain ⟨hmax, balance, note, hb, rfl, hf⟩ := Note.yields_next? h
  obtain rfl : note = e.note := by simpa [Account.note?] using hn
  exact ⟨ha, hmax, balance, hb, hf f ht⟩

end NoteEvent

/-! ## Failures -/

namespace NoteEvent

open ShieldedWallet.Action in
theorem failsByProver_claimed? (version : ContractVersion) (a : Account) (e : NoteEvent) :
    (e.claimed? version a).FailsByProver := by
  intro t failure h
  by_cases ha : e.movement.appliesTo a = true
  · rcases yields_claimed?_cases ha h with ⟨hne, h⟩ | ⟨hnone, -⟩
    · rcases Note.yields_next?_error h with h | ⟨-, rfl⟩
      · exact h
      · exact absurd rfl hne
    · cases hnone
  · unfold claimed? at h
    rw [if_neg ha] at h
    exact failsByProver_pure _ t failure h

open ShieldedWallet.Action in
theorem failsByProver_continuing (version : ContractVersion) (a : Account) (es : List NoteEvent) :
    (continuing version a es).FailsByProver := by
  induction es with
  | nil => exact failsByProver_pure _
  | cons e es ih =>
    exact (failsByProver_claimed? version a e).bind fun next =>
      ih.bind fun rest => failsByProver_pure _

/-! ## The true event and the forged ones -/

section

variable {σ : Type} {env : Environment surroundings σ} {f : Oracle proving} {a next : Account}
  {e forged : NoteEvent}

/-- Let `e` be the event of a movement that applies to the account, and let `forged` have the same note
but claim another balance, or a movement that does not apply. Among any events `e` is selected and
`forged` is not, unless the lists hashed for the two collide. If the prover fails on the way, there is
its failure instead. -/
theorem continuing_selects (version : ContractVersion) (es : List NoteEvent)
    (hf : ∀ q s, (env (.prover q) s).1 = f q) (s s' : σ) (ha : e.movement.appliesTo a = true)
    (hnext : ((Note.next? version e.movement a e.amount).run.run env s).1 = .ok (some next))
    (hnote : next.note? = some e.note) (he : e ∈ es) (hsame : forged.note = e.note)
    (hdiff : forged.residue? a ≠ e.residue? a) :
    match ((continuing version a es).run.run env s').1 with
    | .ok found => e ∈ found ∧ (forged ∉ found ∨ e.Collide f version a forged)
    | .error failure => ∃ q cause, f q = .error cause ∧ failure = .prover cause := by
  have hyields := Program.yields_trace env (Note.next? version e.movement a e.amount).run s
  rw [hnext] at hyields
  have hmatches : e.Matches f version a :=
    matches_of_next? ha hyields hnote (History.answeredBy_trace hf _ s)
  have hyields' := Program.yields_trace env (continuing version a es).run s'
  have ht := History.answeredBy_trace hf (continuing version a es).run s'
  generalize ((continuing version a es).run.run env s').1 = result at hyields' ⊢
  cases result with
  | error failure =>
    obtain ⟨q, cause, hmem, hfailure⟩ := failsByProver_continuing version a es _ _ hyields'
    exact ⟨q, cause, (ht q _ hmem).symm, hfailure⟩
  | ok found =>
    classical
    obtain rfl := yields_continuing hyields' ht
    refine ⟨List.mem_filter.2 ⟨he, by simpa using hmatches⟩, ?_⟩
    by_cases hforged : forged.Matches f version a
    · rcases hmatches.residue_eq_or_collide hforged hsame with hres | hcollide
      · exact absurd hres hdiff
      · exact .inr hcollide
    · exact .inl fun hmem => hforged (by simpa using (List.mem_filter.1 hmem).2)

/-- Events are recomputed one after another. -/
theorem run_continuing_cons {version : ContractVersion} {es rest : List NoteEvent} {s s' s'' : σ}
    {next : Option Account} (h : (e.claimed? version a).run.run env s = (.ok next, s'))
    (hrest : (continuing version a es).run.run env s' = (.ok rest, s'')) :
    (continuing version a (e :: es)).run.run env s =
      (.ok (if e.announces next then e :: rest else rest), s'') := by
  rw [continuing, Action.run_bind_ok h, Action.run_bind_ok hrest]
  rfl

end

/-! ## What is not told apart -/

section

open Simulation

/-- The opening of an account with 10 beside a forged one that claims 11. -/
theorem continuing_selects_opening10 :
    match ((continuing .supported (.unopened 7)
        [announcement .opening 11 (Ledger.registered 7 10) 0 1,
          announcement .opening 10 (Ledger.registered 7 10) 0 1]).run.run
        (World.answerBy (proverAnswer false) 0 0) (World.new .direct 1)).1 with
    | .ok found => announcement .opening 10 (Ledger.registered 7 10) 0 1 ∈ found ∧
        (announcement .opening 11 (Ledger.registered 7 10) 0 1 ∉ found ∨
          (announcement .opening 10 (Ledger.registered 7 10) 0 1).Collide (proverAnswer false)
            .supported (.unopened 7) (announcement .opening 11 (Ledger.registered 7 10) 0 1))
    | .error failure =>
        ∃ q cause, proverAnswer false q = .error cause ∧ failure = .prover cause := by
  have hnext : ((Note.next? .supported .opening (.unopened 7) 10).run.run
      (World.answerBy (proverAnswer false) 0 0) (World.new .direct 1)).1 =
        .ok (some (Ledger.registered 7 10)) := rfl
  have hmem : announcement .opening 10 (Ledger.registered 7 10) 0 1 ∈
      [announcement .opening 11 (Ledger.registered 7 10) 0 1,
        announcement .opening 10 (Ledger.registered 7 10) 0 1] :=
    List.mem_cons_of_mem _ List.mem_cons_self
  have hsame : (announcement .opening 11 (Ledger.registered 7 10) 0 1).note =
      (announcement .opening 10 (Ledger.registered 7 10) 0 1).note := rfl
  have hdiff : (announcement .opening 11 (Ledger.registered 7 10) 0 1).residue? (.unopened 7) ≠
      (announcement .opening 10 (Ledger.registered 7 10) 0 1).residue? (.unopened 7) := by decide
  exact continuing_selects .supported _ (fun _ _ => rfl) (World.new .direct 1) (World.new .direct 1)
    rfl hnext rfl hmem hsame hdiff

/-- The account 7 with its second note and the balance `balance`. -/
def second7 (balance : UInt256) : Account :=
  .opened ⟨7, 2, balance, Simulation.note 7 (secrets 7 1) (.ofUInt256 balance), none⟩

/-- A deposit of one more than the modulus claims a balance with the note of a deposit of 1. -/
theorem run_claimed_wrapped :
    ((announcement .deposit (.ofNat (Scalar.modulus + 1)) (second7 11) 1 2).claimed? .supported
        (Ledger.registered 7 10)).run.run (World.answerBy (proverAnswer false) 0 0)
        (World.new .direct 1) =
      (.ok (some (second7 (.ofNat (Scalar.modulus + 11)))), World.new .direct 1) := rfl

theorem note?_wrapped : (second7 (.ofNat (Scalar.modulus + 11))).note? = (second7 11).note? := by
  have hresidue : Scalar.ofUInt256 (.ofNat (Scalar.modulus + 11)) = .ofUInt256 11 := by decide
  simp only [second7, Account.note?, hresidue]

/-- A deposit into an account without a note has a next account, but its event is not selected, whereas
the event of an opening with the same note is. And of two deposits whose amounts differ by the modulus
both are selected, though nothing collides. -/
theorem continuing_unselective :
    let env := World.answerBy (proverAnswer false) 0 0
    let w := World.new .direct 1
    let deposit5 := announcement .deposit 5 (Ledger.registered 7 5) 0 1
    let opening5 := announcement .opening 5 (Ledger.registered 7 5) 0 1
    let deposit1 := announcement .deposit 1 (second7 11) 1 2
    let depositWrapped := announcement .deposit (.ofNat (Scalar.modulus + 1)) (second7 11) 1 2
    (((Note.next? .supported .deposit (.unopened 7) 5).run.run env w).1 =
        .ok (some (Ledger.registered 7 5)) ∧
      ((continuing .supported (.unopened 7) [deposit5, opening5]).run.run env w).1 = .ok [opening5] ∧
      ¬ deposit5.Collide (proverAnswer false) .supported (.unopened 7) opening5) ∧
    ((Note.next? .supported .deposit (Ledger.registered 7 10) 1).run.run env w).1 =
        .ok (some (second7 11)) ∧
      ((continuing .supported (Ledger.registered 7 10) [deposit1, depositWrapped]).run.run env w).1 =
        .ok [deposit1, depositWrapped] ∧
      ¬ deposit1.Collide (proverAnswer false) .supported (Ledger.registered 7 10) depositWrapped := by
  intro env w deposit5 opening5 deposit1 depositWrapped
  have hnone : (deposit5.claimed? .supported (.unopened 7)).run.run env w = (.ok none, w) := rfl
  have hopened : (opening5.claimed? .supported (.unopened 7)).run.run env w =
      (.ok (some (Ledger.registered 7 5)), w) := rfl
  have hdeposit : (deposit1.claimed? .supported (Ledger.registered 7 10)).run.run env w =
      (.ok (some (second7 11)), w) := rfl
  have hopening : opening5.announces (some (Ledger.registered 7 5)) = true :=
    announces_iff.2 ⟨_, rfl, rfl⟩
  have hdeposited : deposit1.announces (some (second7 11)) = true := announces_iff.2 ⟨_, rfl, rfl⟩
  have hwrapped : depositWrapped.announces (some (second7 (.ofNat (Scalar.modulus + 11)))) = true :=
    announces_iff.2 ⟨_, rfl, note?_wrapped⟩
  have hnil (a : Account) : (continuing .supported a []).run.run env w = (.ok [], w) := rfl
  refine ⟨⟨rfl, ?_, ?_⟩, rfl, ?_, not_collide_of_residue_eq (by decide)⟩
  · rw [run_continuing_cons hnone (run_continuing_cons hopened (hnil _)), if_pos hopening]
    rfl
  · rintro ⟨xs, ys, xs', ys', ⟨balance, -, -, -, hb, -⟩, -⟩
    cases hb
  · rw [run_continuing_cons hdeposit (run_continuing_cons run_claimed_wrapped (hnil _)),
      if_pos hdeposited, if_pos hwrapped]

end

end NoteEvent

end ShieldedWallet
