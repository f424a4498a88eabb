import ShieldedWallet.Proofs.Simulation.Plain

/-!
# Walks to the end

On a ledger that stands still there is one walk from an account that is not continued, and a pass goes
through it to its end. Every other walk from the account is a beginning of it.
-/

namespace ShieldedWallet

open History (Step Follows Walked lastOf Ends)

namespace History

/-- Saving an account of one's own fails with the storage. -/
theorem yields_save_error {r : Register} {b : Account} {t : Trace} {e : Failure}
    (h : (r.save b).run.Yields t (.error e)) (hb : b.id = r.id) :
    ∃ f, (⟨.store r.key (r.item b), .error f⟩ : Exchange surroundings) ∈ t := by
  rcases yields_save_failure h with ⟨hid, -⟩ | ⟨f, -, rfl⟩
  · exact absurd hb hid
  · exact ⟨f, List.mem_singleton_self _⟩

end History

namespace Simulation

variable {f : Oracle proving} {version : ContractVersion} {l : Ledger} {a : Account} {xs ys : List Step}
  {r : Register} {t : Trace}

/-- The steps lead from `a` to an account that has no next one on the ledger. -/
structure Entire (f : Oracle proving) (version : ContractVersion) (l : Ledger) (a : Account)
    (xs : List Step) : Prop where
  follows : Follows (Next f version l) a xs
  last : (History.next? version (lastOf a xs)).run.eval (reading f l) = .ok none

/-- What a step finds depends on the blocks alone. -/
theorem eval_next?_congr {l' : Ledger} (hb : l.blocks = l'.blocks) (a : Account) :
    (History.next? version a).run.eval (reading f l) =
      (History.next? version a).run.eval (reading f l') := by
  obtain ⟨t, ht, hanswers⟩ := Program.yields_eval (reading f l) (History.next? version a).run
  refine (ht.eval_eq fun x hx => ?_).symm
  rw [hanswers x hx]
  exact (reading_eq hb (ht.confined (History.confined_next? a) x hx)).symm

namespace Entire

theorem congr {l' : Ledger} (h : Entire f version l a xs) (hb : l.blocks = l'.blocks) :
    Entire f version l' a xs where
  follows := h.follows.mono fun b _ _ hn => (eval_next?_congr hb b).symm.trans hn
  last := (eval_next?_congr hb _).symm.trans h.last

theorem drop (h : Entire f version l a (xs ++ ys)) : Entire f version l (lastOf a xs) ys where
  follows := (History.follows_append.1 h.follows).2
  last := by
    rw [← History.lastOf_append]
    exact h.last

/-- Every walk is a beginning. -/
theorem begins (h : Entire f version l a xs) (hy : Follows (Next f version l) a ys) :
    ys <+: xs := by
  rcases Nat.le_total ys.length xs.length with hle | hle
  · exact Next.follows_prefix hy h.follows hle
  · obtain ⟨zs, rfl⟩ := Next.follows_prefix h.follows hy hle
    cases zs with
    | nil => simp
    | cons z zs =>
      have hz : Next f version l (lastOf a xs) z.event z.account :=
        (History.follows_append.1 hy).2.1
      unfold Next at hz
      rw [h.last] at hz
      cases hz

/-- A walk that reads from one ledger goes on to the end, unless the storage fails. -/
theorem ends {res : Except Failure Nat} {fuel : Nat} (h : Entire f version l a xs) (ha : a.id = r.id)
    (hy : Follows (Next f version l) a ys)
    (hlook : ∀ x ∈ t, x.query.IsLookup → x.answer = reading f l x.query)
    (hstore : ∀ item e, (⟨.store r.key item, .error e⟩ : Exchange surroundings) ∉ t)
    (hend : Ends version r t a ys fuel res ys.length) (hfuel : ys.length < fuel) :
    res = .ok ys.length ∧ ys = xs := by
  obtain ⟨zs, rfl⟩ := h.begins hy
  have hnext : ∀ t' found, t' <:+: t → (History.next? version (lastOf a ys)).run.Yields t' found →
      (History.next? version (lastOf a ys)).run.eval (reading f l) = found := by
    intro t' found ht hn
    refine hn.eval_eq fun x hx => (hlook x (ht.subset hx) ?_).symm
    exact hn.confined (History.confined_next? _) x hx
  have hrest := h.drop
  -- short of the end there is a next step, and at the end there is none
  cases zs with
  | nil =>
    have hnone : (History.next? version (lastOf a ys)).run.eval (reading f l) = .ok none := hrest.last
    cases hend with
    | cutOff hlen => omega
    | last ht hn => exact ⟨rfl, by simp⟩
    | lookup ht hn =>
      have herror := hnext _ _ ht hn
      rw [hnone] at herror
      cases herror
    | save ht₁ ht₂ hn hsave =>
      have hfound := hnext _ _ ht₁ hn
      rw [hnone] at hfound
      cases hfound
  | cons z zs =>
    have hz : Next f version l (lastOf a ys) z.event z.account := hrest.follows.1
    unfold Next at hz
    cases hend with
    | cutOff hlen => omega
    | last ht hn =>
      have hnone := hnext _ _ ht hn
      rw [hz] at hnone
      cases hnone
    | lookup ht hn =>
      have herror := hnext _ _ ht hn
      rw [hz] at herror
      cases herror
    | save ht₁ ht₂ hn hsave =>
      have hfound : Next f version l (lastOf a ys) _ _ := hnext _ _ ht₁ hn
      have hid := (hy.mono fun _ _ _ hn => hn.leads).id_lastOf
      obtain ⟨e, he⟩ := History.yields_save_error hsave ((hfound.leads.id_eq.trans hid).trans ha)
      exact absurd (ht₂.subset he) (hstore _ e)

end Entire

/-- A new block with one matching event is a step. -/
theorem next_append {l' : Ledger} {e : NoteEvent} (ha : a.isUnopened = true ∨ a.nonce ≠ 0)
    (hm : e.Matches simulated version a) (hv : e.version = version)
    (hfresh : l.nullifierBlock? (searchHash a.id a.nonce.toNat) = none)
    (hl : l'.blocks = l.blocks ++ [⟨searchHash a.id a.nonce.toNat, [e]⟩])
    (hlen : l.blocks.length + 1 < UInt64.size) : ∃ b, Next simulated version l' a e b := by
  have hblock := Ledger.nullifierBlock?_append hfresh _ hl
  have hes := Ledger.events_append _ hl hlen
  exact eval_step (fun q => rfl) ha hm hv (congrArg Except.ok hblock) (congrArg Except.ok hes)

/-- A step leads to the end if the next search hash is not registered. -/
theorem Next.entire {e : NoteEvent} {b : Account} (h : Next simulated version l a e b)
    (hlast : l.nullifierBlock? (searchHash a.id (a.nonce.toNat + 1)) = none) :
    Entire simulated version l a [⟨e, b⟩] := by
  refine ⟨⟨h, trivial⟩, eval_no_step (fun q => rfl) (.inr h.leads.nonce_ne_zero) ?_⟩
  show Except.ok (l.nullifierBlock? (searchHash b.id b.nonce.toNat)) = _
  rw [h.leads.id_eq, h.leads.nonce_eq, hlast]

/-- The event of an account that has been opened without a call. -/
def Ledger.registration (l : Ledger) (id : Scalar) (amount : UInt256) : NoteEvent :=
  l.nextEvent .opening amount (note id (secrets id 0) (.ofUInt256 amount)) none none

/-- An account that has been opened without a call is found if its next search hash is not
registered. -/
theorem entire_register (l : Ledger) (id : Scalar) (amount : UInt256) (hversion : l.version = version)
    (hnote : version.noteVersion = noteVersion) (hfresh : l.nullifierBlock? (searchHash id 0) = none)
    (hnext : l.nullifierBlock? (searchHash id 1) = none) (hne : searchHash id 0 ≠ searchHash id 1)
    (hlen : l.blocks.length + 1 < UInt64.size) :
    ∃ b, Entire simulated version ((Ledger.Operation.register id amount).apply l) (.unopened id)
      [⟨l.registration id amount, b⟩] := by
  have hblocks : ((Ledger.Operation.register id amount).apply l).blocks =
      l.blocks ++ [⟨searchHash id 0, [l.registration id amount]⟩] := by
    rw [Ledger.apply_register hfresh]
    rfl
  have hmatches : (l.registration id amount).Matches simulated version (.unopened id) :=
    ⟨rfl, by simp [Account.nonce, Note.maxNonce], amount, rfl, (isNote_simulated hnote).2 rfl⟩
  obtain ⟨b, hb⟩ := next_append (.inl rfl) hmatches hversion hfresh hblocks hlen
  refine ⟨b, hb.entire ?_⟩
  rw [Ledger.nullifierBlock?_eq_none_iff] at hnext ⊢
  intro block hblock
  rw [hblocks] at hblock
  rcases List.mem_append.1 hblock with hold | hnew
  · exact hnext block hold
  · obtain rfl := List.mem_singleton.1 hnew
    exact hne

theorem searchHash_seven : searchHash 7 0 ≠ searchHash 7 1 := by decide +kernel

/-- A wallet of the account 7. -/
def wallet7 : Wallet := ⟨.forChain 1, ⟨"accountState", 7, 0⟩⟩

/-- A new world in which the account 7 has been opened. -/
def opened7 : World :=
  { World.new .direct 1 with ledger := (Ledger.Operation.register 7 100).apply {} }

theorem plain_opened7 : opened7.Plain := ⟨⟨rfl, rfl⟩, rfl, rfl⟩

theorem undisturbed_opened7 : opened7.Undisturbed := plain_opened7.toUndisturbed

theorem blocks_opened7 :
    opened7.ledger.blocks = [⟨searchHash 7 0, [Ledger.registration {} 7 100]⟩] := by
  have hfresh : ({} : Ledger).nullifierBlock? (Simulation.hash [7]) = none := rfl
  unfold opened7
  rw [Ledger.apply_register hfresh]
  rfl

/-- The opening of the account 7 is the entire walk. -/
theorem entire_opened7 : ∃ b, Entire simulated .supported opened7.ledger (.unopened 7)
    [⟨Ledger.registration {} 7 100, b⟩] :=
  entire_register {} 7 100 rfl rfl rfl rfl searchHash_seven (by decide)

/-! ## Passes to the end -/

/-- In the worlds `P` the storage never fails. -/
structure Steady (env : Environment surroundings World) (P : World → Prop) : Prop where
  load : ∀ {w}, P w → ∀ key e, (env (.load key) w).1 ≠ .error e
  store : ∀ {w}, P w → ∀ key item e, (env (.store key item) w).1 ≠ .error e

theorem Steady.trace {env : Environment surroundings World} {P : World → Prop} {α : Type}
    (h : Steady env P) (hs : Serves f env P) {w : World} (hw : P w) (p : Program surroundings α) :
    (∀ key e, (⟨.load key, .error e⟩ : Exchange surroundings) ∉ p.trace env w) ∧
      ∀ key item e, (⟨.store key item, .error e⟩ : Exchange surroundings) ∉ p.trace env w := by
  have hanswers := Program.trace_answered (p := p) (fun q w hw => hs.stays (q := q) hw) hw
  constructor
  · intro key e hmem
    obtain ⟨w', hw', ha⟩ := hanswers _ hmem
    exact h.load hw' key e ha.symm
  · intro key item e hmem
    obtain ⟨w', hw', ha⟩ := hanswers _ hmem
    exact h.store hw' key item e ha.symm

theorem World.steady_answerBy (f : Oracle proving) (c storage : Nat) :
    Steady (World.answerBy f c storage) World.Undisturbed where
  load {w} hw key e he := by
    have hload : World.answerBy f c storage (.load key) w = (.ok (w.storages storage key), w) :=
      hw.answer_load key
    rw [hload] at he
    cases he
  store {w} hw key item e he := by
    have hstore : World.answerBy f c storage (.store key item) w =
      (.ok (), w.storeItem storage key item) := hw.answer_store key item
    rw [hstore] at he
    cases he

theorem World.steady_answer (c storage : Nat) : Steady (World.answer c storage) World.Plain where
  load hw key e := (World.steady_answerBy simulated c storage).load hw.toUndisturbed key e
  store hw key item e := (World.steady_answerBy simulated c storage).store hw.toUndisturbed key item e

/-- What a pass that is not interrupted does from the account `a`: it takes the steps, and nothing else
changes on the ledger. -/
structure Passed (env : Environment surroundings World) (version : ContractVersion) (r : Register)
    (item : World → Option Bytes) (a : Account) (xs : List Step) (w w' : World) : Prop where
  run_eq : (History.pass version r).run.run env w = (.ok xs.length, w')
  stored_eq : Trace.stored r.key ((History.pass version r).run.trace env w) =
    xs.map fun x => r.item x.account
  reported_eq : Trace.reported ((History.pass version r).run.trace env w) =
    xs.map fun x => x.event.transaction
  blocks_eq : w'.ledger.blocks = w.ledger.blocks
  item_eq : item w' = (xs.map fun x => r.item x.account).getLast?.or (item w)
  read_eq : r.read (item w') = .ok (lastOf a xs)

variable {env : Environment surroundings World} {P : World → Prop} {item : World → Option Bytes}
  {w : World}

/-- A pass that is not interrupted walks on the ledger as it is. -/
theorem Serves.walked_pass (version : ContractVersion) (hs : Serves f env P) (hk : Keeps env r.key item) (hw : P w)
    (hread : r.read (item w) = .ok a) :
    let t := (History.pass version r).run.trace env w
    let res := ((History.pass version r).run.run env w).1
    ∃ xs, Walked (Next f version w.ledger) r t a xs ∧
      (Ends version r t a xs (History.stepsLeft a) res xs.length ∨
        ∃ e x, res = .error e ∧ (⟨.load r.key, .error x⟩ : Exchange surroundings) ∈ t) := by
  obtain ⟨-, -, hlook⟩ := hs.run_quiet History.quiet_pass hw
  exact History.walked_pass (Program.yields_trace env (History.pass version r).run w)
    (hk.run (History.pass version r).run w) hread fun t' a b e ht hn =>
      next_of_yields hn fun x hx hl => ⟨w.ledger, .refl _, hlook x (ht.subset hx) hl⟩

/-- A pass goes through the entire walk from the stored account. -/
theorem Entire.pass (h : Entire f version w.ledger a xs) (hs : Serves f env P) (hsteady : Steady env P)
    (hk : Keeps env r.key item) (hw : P w) (hread : r.read (item w) = .ok a) :
    ∃ w', P w' ∧ Passed env version r item a xs w w' := by
  obtain ⟨hw', hblocks, hlook⟩ := hs.run_quiet History.quiet_pass hw
  obtain ⟨hload, hstore⟩ := hsteady.trace hs hw (History.pass version r).run
  have hkeeps := hk.run (History.pass version r).run w
  obtain ⟨ys, hy, hend⟩ := hs.walked_pass version hk hw hread
  rcases hend with hend | ⟨e, x, -, hx⟩
  · -- the walk is shorter than the number of steps a pass may take, so it was not cut off
    have hfuel := (hy.follows.mono fun _ _ _ hn => hn.leads).length_lt
    obtain ⟨hres, rfl⟩ := h.ends (Register.id_of_read hread) hy.follows hlook (hstore _) hend hfuel
    refine ⟨_, hw', ?_, hy.stored_eq, hy.reported_eq, hblocks, ?_, ?_⟩
    · rw [← hres]
    · rw [hkeeps.eq, hy.stored_eq]
    · exact hy.read_eq (fun _ _ _ hn => hn.leads) hkeeps hread
  · -- only the storage could have kept the pass from its walk
    exact absurd hx (hload _ x)

/-- What `n + 1` passes that are not interrupted do one after another from the account `a`. The first
one takes the steps, and the others find nothing to do. -/
structure PassedAll (env : Environment surroundings World) (version : ContractVersion) (r : Register)
    (item : World → Option Bytes) (n : Nat) (a : Account) (xs : List Step) (w w' : World) : Prop where
  run_eq : (History.passes version r (n + 1)).run env w =
    (.ok xs.length :: List.replicate n (.ok 0), w')
  stored_eq : Trace.stored r.key ((History.passes version r (n + 1)).trace env w) =
    xs.map fun x => r.item x.account
  reported_eq : Trace.reported ((History.passes version r (n + 1)).trace env w) =
    xs.map fun x => x.event.transaction
  blocks_eq : w'.ledger.blocks = w.ledger.blocks
  read_eq : r.read (item w') = .ok (lastOf a xs)

theorem Entire.passes (h : Entire f version w.ledger a xs) (hs : Serves f env P) (hsteady : Steady env P)
    (hk : Keeps env r.key item) (hw : P w) (hread : r.read (item w) = .ok a) (n : Nat) :
    ∃ w', P w' ∧ PassedAll env version r item n a xs w w' := by
  induction n generalizing a xs w with
  | zero =>
    obtain ⟨w', hw', hpass⟩ := h.pass hs hsteady hk hw hread
    have htrace : (History.passes version r 1).trace env w =
        (History.pass version r).run.trace env w := by
      unfold History.passes
      rw [Program.trace_bind]
      exact List.append_nil _
    refine ⟨w', hw', ?_, ?_, ?_, hpass.blocks_eq, hpass.read_eq⟩
    · unfold History.passes
      rw [Program.run_bind, hpass.run_eq]
      rfl
    · rw [htrace, hpass.stored_eq]
    · rw [htrace, hpass.reported_eq]
  | succ n ih =>
    obtain ⟨w₁, hw₁, hpass⟩ := h.pass hs hsteady hk hw hread
    have hrest : Entire f version w.ledger (lastOf a xs) [] :=
      Entire.drop (by rwa [List.append_nil])
    have hlast := hrest.congr hpass.blocks_eq.symm
    obtain ⟨w', hw', hpasses⟩ := ih hlast hw₁ hpass.read_eq
    have htrace : (History.passes version r (n + 2)).trace env w =
        (History.pass version r).run.trace env w ++
          (History.passes version r (n + 1)).trace env w₁ := by
      rw [History.passes, Program.trace_bind, hpass.run_eq, Program.trace_bind]
      exact congrArg _ (List.append_nil _)
    refine ⟨w', hw', ?_, ?_, ?_, hpasses.blocks_eq.trans hpass.blocks_eq, hpasses.read_eq⟩
    · rw [History.passes, Program.run_bind, hpass.run_eq, Program.run_bind, hpasses.run_eq]
      rfl
    · rw [htrace, Trace.stored_append, hpass.stored_eq, hpasses.stored_eq]
      exact List.append_nil _
    · rw [htrace, Trace.reported_append, hpass.reported_eq, hpasses.reported_eq]
      exact List.append_nil _

/-- A pass that has succeeded has gone through the entire walk. -/
theorem entire_of_pass {n : Nat} (hs : Serves f env P) (hk : Keeps env r.key item) (hw : P w)
    (hread : r.read (item w) = .ok a)
    (hn : ((History.pass version r).run.run env w).1 = .ok n) :
    ∃ xs, Entire f version w.ledger a xs ∧ xs.length = n := by
  have hquiet : (History.pass version r).run.Confined Query.IsQuiet := History.quiet_pass
  obtain ⟨-, -, hlook⟩ := hs.run_quiet hquiet hw
  obtain ⟨xs, hx, hend⟩ := hs.walked_pass version hk hw hread
  rw [hn] at hend
  have hlt := (hx.follows.mono fun _ _ _ hn => hn.leads).length_lt
  rcases hend with hend | ⟨e, x, he, -⟩
  · cases hend with
    | cutOff hlen => omega
    | last ht hnone =>
      refine ⟨xs, ⟨hx.follows, hnone.eval_eq fun x hx => ?_⟩, rfl⟩
      have hl := hnone.confined (History.confined_next? _) x hx
      exact (hlook x (ht.subset hx) hl).symm
  · cases he

end Simulation

end ShieldedWallet
