import ShieldedWallet.Proofs.Simulation.Entire

/-!
# Passes against untrusted surroundings

What some passes leave in the storage, when the contract may answer anything at any time and any
question may fail. If the prover is deterministic, every account that is stored is certified by the
one before it. With any prover, what is stored and what the owner has been told never drift apart.
-/

namespace ShieldedWallet

open Simulation (World Ledger simulated opened7 wallet7 undisturbed_opened7 blocks_opened7
  entire_opened7 plain_opened7)

/-- For the prover `f`, the account has no note, or its note is the one that its identifier, its nonce
and its balance make. -/
def Account.Sound (f : Oracle proving) (version : ContractVersion) (a : Account) : Prop :=
  a.isUnopened = true ∨ a.nonce ≠ 0 ∧ ∃ note, a.note? = some note ∧
    Note.IsNote f version a.id (a.nonce - 1) a.balance note

namespace History

variable {f : Oracle proving} {version : ContractVersion} {r : Register} {t : Trace} {a b : Account}
  {e : NoteEvent} {xs : List Step}

/-- For the prover `f`, the open account `b` of `id` is what the event `e` makes of the account `a`,
and the event is the only one that does so in the block that the contract has assigned to the search
hash of `a`. -/
structure Certified (f : Oracle proving) (version : ContractVersion) (id : Scalar) (t : Trace)
    (a : Account) (e : NoteEvent) (b : Account) : Prop where
  isUnopened_eq : b.isUnopened = false
  id_eq : b.id = id
  nonce_eq : b.nonce.toNat = a.nonce.toNat + 1
  note : ∃ note, b.note? = some note ∧ Note.IsNote f version id (b.nonce - 1) b.balance note
  noteIndex_eq : b.noteIndex? = some e.noteIndex
  balance_eq : e.movement.balanceAfter? a.balance e.amount = some b.balance
  version_eq : e.version = version
  applies : e.movement.appliesTo a = true
  single : ∃ h block es, IsSearchHash f a h ∧
    (⟨.contract (.nullifierBlock h), .ok (some block)⟩ : Exchange surroundings) ∈ t ∧
    (⟨.contract (.events block), .ok es⟩ : Exchange surroundings) ∈ t ∧
    open Classical in es.filter (fun e => e.Matches f version a) = [e]

/-- With a deterministic prover, what a step has found is certified. -/
theorem Found.certified (h : Found version t a e b) (ht : t.AnsweredBy f) :
    Certified f version a.id t a e b := by
  obtain ⟨hash, block, es, hblock, hes, hf⟩ := h.answered
  obtain ⟨hhash, hsingle⟩ := hf f ht
  have he : e.Matches f version a := (NoteEvent.matches_of_single hsingle).2
  obtain ⟨-, -, balance, hbalance, hnote⟩ := he
  obtain rfl : balance = b.balance := Option.some.inj (hbalance.symm.trans h.leads.balance_eq)
  refine ⟨h.leads.not_isUnopened, h.leads.id_eq, h.leads.nonce_eq, ⟨e.note, h.leads.note_eq, ?_⟩, ?_,
    h.leads.balance_eq, h.version_eq, h.leads.1, hash, block, es, hhash, hblock, hes, hsingle⟩
  · obtain ⟨-, -, balance, -, rfl⟩ := h.leads
    simpa [Account.nonce] using hnote
  · obtain ⟨-, -, balance, -, rfl⟩ := h.leads
    rfl

theorem Found.mono {t' : Trace} (h : Found version t a e b) (ht : t <:+: t') :
    Found version t' a e b := by
  obtain ⟨hash, block, es, hblock, hes, hf⟩ := h.answered
  refine ⟨h.version_eq, h.leads, hash, block, es, ht.subset hblock, ht.subset hes, fun f hf' => ?_⟩
  exact hf f fun q x hx => hf' q x (ht.subset hx)

theorem Certified.nonce_ne_zero {id : Scalar} (h : Certified f version id t a e b) : b.nonce ≠ 0 := by
  intro h0
  have hn := h.nonce_eq
  rw [h0] at hn
  exact absurd hn (by simp)

theorem Certified.sound {id : Scalar} (h : Certified f version id t a e b) : b.Sound f version := by
  obtain ⟨note, hnote, hf⟩ := h.note
  exact .inr ⟨h.nonce_ne_zero, note, hnote, by rwa [h.id_eq]⟩

section Deterministic

variable {σ : Type} {env : Environment surroundings σ} {item : σ → Option Bytes}

theorem answeredBy_trace (hf : ∀ q s, (env (.prover q) s).1 = f q) {α : Type}
    (p : Program surroundings α) (s : σ) : Trace.AnsweredBy f (p.trace env s) := by
  induction p generalizing s with
  | done a =>
    intro q x hx
    cases hx
  | ask q next ih =>
    intro q' x hx
    rcases List.mem_cons.1 hx with hx | hx
    · cases hx
      exact hf q' s
    · exact ih _ _ q' x hx

/-- Whatever the contract answers, the accounts that some passes store one after another are certified
each by the one before it, the first one by the account stored at first. The account stored in the end
is sound if the one stored at first was. -/
theorem certified_passes (version : ContractVersion) (r : Register) (hk : Keeps env r.key item)
    (hf : ∀ q s, (env (.prover q) s).1 = f q) (n : Nat) {s : σ} {a : Account}
    (hread : r.read (item s) = .ok a) (ha : a.Sound f version) :
    ∃ xs, Follows (Certified f version r.id ((passes version r n).trace env s)) a xs ∧
      Trace.stored r.key ((passes version r n).trace env s) = xs.map (fun x => r.item x.account) ∧
      r.read (item ((passes version r n).run env s).2) = .ok (lastOf a xs) ∧
      (lastOf a xs).Sound f version := by
  have ht := answeredBy_trace hf (passes version r n) s
  have hkeep := hk.run (passes version r n) s
  obtain ⟨xs, hw⟩ := walked_passes (R := Found version ((passes version r n).trace env s))
    (Program.yields_trace env (passes version r n) s) hkeep hread (fun a e b h => h.leads)
    fun t' a b e ht' h => (yields_next? h).mono ht'
  -- `Found` does not mention the prover; with its answers each step is certified
  have hid : ∀ {a : Account} {xs : List Step}, a.id = r.id →
      Follows (Found version ((passes version r n).trace env s)) a xs →
      Follows (Certified f version r.id ((passes version r n).trace env s)) a xs := by
    intro a xs ha hxs
    induction xs generalizing a with
    | nil => trivial
    | cons x xs ih => exact ⟨ha ▸ hxs.1.certified ht, ih (hxs.1.leads.id_eq.trans ha) hxs.2⟩
  have hcert := hid (Register.id_of_read hread) hw.follows
  exact ⟨xs, hcert, hw.stored_eq, hw.read_eq (fun a e b h => h.leads) hkeep hread,
    hcert.invariant (fun a e b h _ => h.sound) ha⟩

/-- If the contract reads the ledger `l`, the event of a certified account is on it. -/
theorem Certified.mem_events {id : Scalar} {l : Ledger} (h : Certified f version id t a e b)
    (hlook : ∀ x ∈ t, x.query.IsLookup → x.answer = Simulation.reading f l x.query) :
    ∃ block ∈ l.blocks, e ∈ block.events := by
  obtain ⟨hash, block, es, -, -, hes, hsingle⟩ := h.single
  obtain rfl : es = l.events block := Except.ok.inj (hlook _ hes trivial)
  have hmem : e ∈ l.events block :=
    (List.mem_filter.1 (hsingle ▸ List.mem_singleton_self e)).1
  exact l.exists_block_of_mem_events hmem

/-- Two passes of the wallet whose account has been opened with 100 store one account. It has created
one note, and it is certified by the opening. -/
theorem certified_passes_registered :
    let t := (passes .supported wallet7.register 2).trace (World.answerBy simulated 0 0) opened7
    ∃ b, Trace.stored wallet7.register.key t = [wallet7.register.item b] ∧
      Certified simulated .supported 7 t (.unopened 7) (Ledger.registration {} 7 100) b ∧
      b.nonce.toNat = 1 ∧ b.balance = 100 ∧ b.Sound simulated .supported := by
  intro t
  have hkeeps := World.keeps_answerBy simulated 0 0 wallet7.register.key
  have hserves := World.serves_answerBy simulated 0 0
  obtain ⟨xs, hxs, hstored, hread, hsound⟩ := certified_passes (f := simulated) .supported
    wallet7.register hkeeps (fun q s => rfl) 2 (s := opened7) (a := .unopened 7) rfl (.inl rfl)
  -- the passes store what is on the ledger, which is one account
  obtain ⟨b, hentire⟩ := entire_opened7
  obtain ⟨w', -, hpasses⟩ := hentire.passes hserves (World.steady_answerBy simulated 0 0) hkeeps
    undisturbed_opened7 Register.read_none 1
  have hrun : (passes .supported wallet7.register 2).run (World.answerBy simulated 0 0) opened7 =
      ([.ok 1, .ok 0], w') := hpasses.run_eq
  rw [hrun] at hread
  obtain ⟨x, rfl, -⟩ : ∃ x, xs = [x] ∧ wallet7.register.item x.account = wallet7.register.item b :=
    List.map_eq_singleton_iff.1 (hstored.symm.trans hpasses.stored_eq)
  obtain rfl : b = x.account := Except.ok.inj (hpasses.read_eq.symm.trans hread)
  -- its event is the only one on the ledger
  obtain ⟨-, -, hlook⟩ :=
    hserves.run_quiet (quiet_passes .supported wallet7.register 2) undisturbed_opened7
  have hcertified := hxs.1
  obtain ⟨block, hblock, hmem⟩ := hcertified.mem_events hlook
  rw [blocks_opened7] at hblock
  obtain rfl := List.mem_singleton.1 hblock
  rw [List.mem_singleton.1 hmem] at hcertified
  have hbalance := hcertified.balance_eq
  exact ⟨x.account, hpasses.stored_eq, hcertified, hcertified.nonce_eq,
    (Option.some.inj hbalance).symm, hsound⟩

end Deterministic

/-! ## What the owner has been told -/

/-- The balance is the sum of what the owner has been told. -/
theorem Follows.balance_lastOf (h : Follows (fun a e b => e.Leads a b) a xs) :
    (xs.map fun x => x.event.transaction).foldlM
      (fun balance x => x.movement.balanceAfter? balance x.amount) a.balance =
        some (lastOf a xs).balance := by
  induction xs generalizing a with
  | nil => rfl
  | cons x xs ih =>
    rw [lastOf_cons, List.map_cons, List.foldlM_cons]
    have hb : x.event.transaction.movement.balanceAfter? a.balance x.event.transaction.amount =
        some x.account.balance := h.1.balance_eq
    rw [hb]
    exact ih h.2

/-- The current note is the one that the owner has been told last. -/
theorem Follows.note_lastOf (h : Follows (fun a e b => e.Leads a b) a xs) :
    (lastOf a xs).note? = ((xs.map fun x => x.event.transaction).getLast?.map (·.note)).or a.note? := by
  induction xs generalizing a with
  | nil => simp
  | cons x xs ih =>
    rw [lastOf_cons, ih h.2, List.map_cons, List.getLast?_cons, h.1.note_eq]
    cases (xs.map fun x => x.event.transaction).getLast? <;> rfl

theorem Follows.map_note (h : Follows (fun a e b => e.Leads a b) a xs) :
    xs.map (Account.note? ∘ Step.account) =
      xs.map ((fun x => some x.note) ∘ fun x => x.event.transaction) := by
  induction xs generalizing a with
  | nil => rfl
  | cons x xs ih =>
    rw [List.map_cons, List.map_cons, ih h.2]
    exact congrArg (· :: _) h.1.note_eq

theorem Follows.movement_ne_opening (h : Follows (fun a e b => e.Leads a b) a xs)
    (ha : a.isUnopened = false) : ∀ x ∈ xs, x.event.movement ≠ .opening := by
  induction xs generalizing a with
  | nil => simp
  | cons y ys ih =>
    intro x hx
    rcases List.mem_cons.1 hx with rfl | hx
    · intro hm
      rw [h.1.movement_eq_opening_iff.1 hm] at ha
      cases ha
    · exact ih h.2 h.1.not_isUnopened x hx

/-- An account without a note is opened by its first step, and by no other one. -/
theorem Follows.movement_eq_opening_iff (h : Follows (fun a e b => e.Leads a b) a xs)
    (ha : a.isUnopened = true) {i : Nat} {x : Step} (hx : xs[i]? = some x) :
    x.event.movement = .opening ↔ i = 0 := by
  cases xs with
  | nil => cases hx
  | cons y ys =>
    cases i with
    | zero =>
      obtain rfl : y = x := Option.some.inj hx
      exact iff_of_true (h.1.movement_eq_opening_iff.2 ha) rfl
    | succ i =>
      have hmem : x ∈ ys := List.mem_of_getElem? hx
      exact iff_of_false (h.2.movement_ne_opening h.1.not_isUnopened x hmem) (by simp)

/-- The account is what the transactions add up to: it has created as many notes, it has their
balance, which is never out of range, and the last of their notes. The first transaction is its
opening, and no other one is. -/
structure AddsUp (ts : List Transaction) (b : Account) : Prop where
  nonce_eq : b.nonce.toNat = ts.length
  balance_eq : ts.foldlM (fun balance x => x.movement.balanceAfter? balance x.amount) 0 =
    some b.balance
  note_eq : b.note? = ts.getLast?.map (·.note)
  opening_iff : ∀ i x, ts[i]? = some x → (x.movement = .opening ↔ i = 0)

theorem Follows.addsUp {id : Scalar} (h : Follows (fun a e b => e.Leads a b) (.unopened id) xs) :
    AddsUp (xs.map fun x => x.event.transaction) (lastOf (.unopened id) xs) where
  nonce_eq := by
    rw [h.nonce_lastOf, List.length_map]
    exact Nat.zero_add _
  balance_eq := h.balance_lastOf
  note_eq := by
    rw [h.note_lastOf]
    exact Option.or_none
  opening_iff i x hx := by
    rw [List.getElem?_map, Option.map_eq_some_iff] at hx
    obtain ⟨y, hy, rfl⟩ := hx
    exact h.movement_eq_opening_iff rfl hy

variable {σ : Type} {env : Environment surroundings σ} {item : σ → Option Bytes}

/-- After some passes that began without a record, however each of them ended, the stored account is
what the reported transactions add up to, and the accounts that have been stored correspond to them
one to one. A further pass that succeeds reports as many transactions as its result says. -/
theorem stored_agrees_with_reported (version : ContractVersion) (r : Register)
    (hk : Keeps env r.key item) (n : Nat) {s : σ}
    (h0 : (item s).bind AccountRecord.ofBytes? = none) :
    (∃ b, r.read (item ((passes version r n).run env s).2) = .ok b ∧
      AddsUp (Trace.reported ((passes version r n).trace env s)) b) ∧
    (∃ bs : List Account, Trace.stored r.key ((passes version r n).trace env s) = bs.map r.item ∧
      bs.map Account.note? =
        (Trace.reported ((passes version r n).trace env s)).map fun x => some x.note) ∧
    ∀ m, ((pass version r).run.run env ((passes version r n).run env s).2).1 = .ok m →
      (Trace.reported
        ((pass version r).run.trace env ((passes version r n).run env s).2)).length = m := by
  have hread : r.read (item s) = .ok (.unopened r.id) := by
    simp only [Register.read, h0]
  have hkeep := hk.run (passes version r n) s
  obtain ⟨xs, hw⟩ := walked_passes (R := fun a e b => e.Leads a b)
    (Program.yields_trace env (passes version r n) s) hkeep hread (fun a e b h => h)
    fun t' a b e _ h => (yields_next? h).leads
  have hread' := hw.read_eq (fun a e b h => h) hkeep hread
  refine ⟨⟨_, hread', ?_⟩, ⟨xs.map Step.account, ?_, ?_⟩, fun m hres => ?_⟩
  · rw [hw.reported_eq]
    exact hw.follows.addsUp
  · rw [hw.stored_eq, List.map_map]
    rfl
  · rw [hw.reported_eq, List.map_map, List.map_map]
    exact hw.follows.map_note
  · obtain ⟨ys, hy, hend⟩ := walked_pass (R := fun a e b => e.Leads a b)
      (Program.yields_trace env (pass version r).run ((passes version r n).run env s).2)
      (hk.run (pass version r).run ((passes version r n).run env s).2) hread'
      fun t' a b e _ h => (yields_next? h).leads
    rw [hy.reported_eq, List.length_map]
    rw [hres] at hend
    rcases hend with hend | ⟨e, x, he, -⟩
    · exact hend.eq_of_ok
    · cases he

/-- The first pass of the wallet whose account has been opened with 100 returns 1, and the second one
returns 0. One transaction has been reported, which is the opening, and one account has been stored,
which it adds up to. -/
theorem stored_agrees_with_reported_registered :
    let p := passes .supported wallet7.register 2
    let t := p.trace (World.answer 0 0) opened7
    ∃ b w', p.run (World.answer 0 0) opened7 = ([.ok 1, .ok 0], w') ∧
      Trace.reported t = [(Ledger.registration {} 7 100).transaction] ∧
      Trace.stored wallet7.register.key t = [wallet7.register.item b] ∧
      wallet7.register.read (w'.storages 0 wallet7.register.key) = .ok b ∧
      AddsUp (Trace.reported t) b ∧ b.balance = 100 := by
  intro p t
  have hkeeps := World.keeps_answer 0 0 wallet7.register.key
  obtain ⟨⟨b, hread, hsum⟩, -, -⟩ := stored_agrees_with_reported .supported wallet7.register hkeeps 2
    (s := opened7) rfl
  obtain ⟨b', hentire⟩ := entire_opened7
  obtain ⟨w', -, hpasses⟩ := hentire.passes (World.serves_answer 0 0) (World.steady_answer 0 0) hkeeps
    plain_opened7 Register.read_none 1
  have hrun : (passes .supported wallet7.register 2).run (World.answer 0 0) opened7 =
      ([.ok 1, .ok 0], w') := hpasses.run_eq
  rw [hrun] at hread
  obtain rfl : b' = b := Except.ok.inj (hpasses.read_eq.symm.trans hread)
  have hbalance := hsum.balance_eq
  rw [hpasses.reported_eq] at hbalance
  exact ⟨b', w', hrun, hpasses.reported_eq, hpasses.stored_eq, hpasses.read_eq, hsum,
    (Option.some.inj hbalance).symm⟩

end History

end ShieldedWallet
