import ShieldedWallet.Channel.Worker
import ShieldedWallet.History.Walk
import ShieldedWallet.Proofs.Program.Action

/-!
# One step of the walk

What a step from an account to the next one says about the two, whatever the surroundings answer. The
prover is trusted to give the same answer to the same question (`Trace.AnsweredBy`); the contract is
not trusted at all. `NoteEvent.Leads` is the part of a step that does not depend on the prover, and
`NoteEvent.Matches` is what an event has to fulfil to be selected.
-/

namespace ShieldedWallet

/-- All answers of the prover in the trace are those of `f`. -/
def Trace.AnsweredBy (f : Oracle proving) (t : Trace) : Prop :=
  ∀ q r, (⟨.prover q, r⟩ : Exchange surroundings) ∈ t → r = f q

theorem Trace.AnsweredBy.left {f : Oracle proving} {t t' : Trace}
    (h : Trace.AnsweredBy f (t ++ t')) : t.AnsweredBy f :=
  fun q r hx => h q r (List.mem_append_left _ hx)

theorem Trace.AnsweredBy.right {f : Oracle proving} {t t' : Trace}
    (h : Trace.AnsweredBy f (t ++ t')) : t'.AnsweredBy f :=
  fun q r hx => h q r (List.mem_append_right _ hx)

theorem Trace.AnsweredBy.within {f : Oracle proving} {t t' : Trace} (h : t.AnsweredBy f)
    (ht : t' <:+: t) : t'.AnsweredBy f :=
  fun q r hx => h q r (ht.subset hx)

theorem Trace.AnsweredBy.eq {f : Oracle proving} {q : ProverQuery} {r : Except ProverFailure q.Result}
    (h : Trace.AnsweredBy f [⟨.prover q, r⟩]) : f q = r := (h q r (by simp)).symm

namespace Note

variable {f : Oracle proving} {version : ContractVersion}

/-- For the prover `f`, `note` is the note that the account `id` creates at `nonce` for `balance`. -/
def IsNote (f : Oracle proving) (version : ContractVersion) (id : Scalar) (nonce : UInt64)
    (balance : UInt256) (note : Scalar) : Prop :=
  ∃ secrets arity h, f (.secrets id nonce) = .ok secrets ∧ f .arity = .ok arity ∧
    f (.hash (balanceInputs arity balance)) = .ok h ∧
    f (.hash (inputs version id secrets h)) = .ok note

theorem IsNote.unique {id : Scalar} {nonce : UInt64} {balance : UInt256} {note note' : Scalar}
    (h : IsNote f version id nonce balance note) (h' : IsNote f version id nonce balance note') :
    note = note' := by
  obtain ⟨s, k, b, hs, hk, hb, hn⟩ := h
  obtain ⟨s', k', b', hs', hk', hb', hn'⟩ := h'
  obtain rfl : s = s' := Except.ok.inj (hs.symm.trans hs')
  obtain rfl : k = k' := Except.ok.inj (hk.symm.trans hk')
  obtain rfl : b = b' := Except.ok.inj (hb.symm.trans hb')
  exact Except.ok.inj (hn.symm.trans hn')

/-- What the account becomes by a movement. -/
theorem yields_next? {m : Movement} {a : Account} {amount : UInt256} {t : Trace} {b : Account}
    (h : (next? version m a amount).run.Yields t (.ok (some b))) :
    a.nonce ≠ maxNonce ∧ ∃ balance note, m.balanceAfter? a.balance amount = some balance ∧
      b = .opened ⟨a.id, a.nonce + 1, balance, note, none⟩ ∧
      ∀ f, t.AnsweredBy f → IsNote f version a.id a.nonce balance note := by
  unfold next? at h
  split at h
  case h_1 => simp at h
  case h_2 balance hbalance =>
    obtain ⟨t₁, t', s, rfl, h₁, h⟩ := Action.yields_bind_ok h
    obtain ⟨t₂, t₃, note, rfl, h₂, h₃⟩ := Action.yields_bind_ok h
    split at h₃
    case isTrue => simp at h₃
    case isFalse hn =>
      obtain ⟨rfl, h₃⟩ := Action.yields_pure_iff.1 h₃
      obtain rfl := Action.yields_prover_ok_iff.1 h₁
      obtain ⟨t₄, t₅, k, rfl, h₄, h₅⟩ := Action.yields_bind_ok h₂
      obtain ⟨t₆, t₇, arity, rfl, h₆, h₇⟩ := Action.yields_bind_ok h₄
      obtain rfl := Action.yields_prover_ok_iff.1 h₆
      obtain rfl := Action.yields_prover_ok_iff.1 h₇
      obtain rfl := Action.yields_prover_ok_iff.1 h₅
      refine ⟨hn, balance, note, hbalance, by simpa using h₃, fun f hf => ?_⟩
      exact ⟨s, arity, k, hf.left.eq, hf.right.left.left.left.eq, hf.right.left.left.right.eq,
        hf.right.left.right.eq⟩

/-- If an account becomes nothing by a movement, the balance would be out of range. -/
theorem yields_next?_none {m : Movement} {a : Account} {amount : UInt256} {t : Trace}
    (h : (next? version m a amount).run.Yields t (.ok none)) :
    m.balanceAfter? a.balance amount = none := by
  unfold next? at h
  split at h
  case h_1 hbalance => exact hbalance
  case h_2 =>
    obtain ⟨t₁, t', s, rfl, h₁, h⟩ := Action.yields_bind_ok h
    obtain ⟨t₂, t₃, note, rfl, h₂, h₃⟩ := Action.yields_bind_ok h
    split at h₃ <;> simp at h₃

open ShieldedWallet.Action in
theorem failsByProver_commit (version : ContractVersion) (id : Scalar) (secrets : Secrets)
    (balance : UInt256) : (commit version id secrets balance).FailsByProver := by
  refine FailsByProver.bind ?_ fun h => failsByProver_prover _
  exact (failsByProver_prover _).bind fun k => failsByProver_prover _

/-- What an account becomes by a movement is left open by the prover, unless its nonces are used up. -/
theorem yields_next?_error {m : Movement} {a : Account} {amount : UInt256} {t : Trace}
    {failure : Failure} (h : (next? version m a amount).run.Yields t (.error failure)) :
    (∃ q cause, (⟨.prover q, .error cause⟩ : Exchange surroundings) ∈ t ∧
        failure = .prover cause) ∨
      a.nonce = maxNonce ∧ failure = .nonceOverflow := by
  unfold next? at h
  split at h
  case h_1 => simp at h
  case h_2 balance _ =>
    rcases Action.yields_bind h with ⟨e, he, hf⟩ | ⟨t₁, t', s, rfl, -, h⟩
    · cases hf
      exact .inl (Action.failsByProver_prover _ _ _ he)
    rcases Action.yields_bind h with ⟨e, he, hf⟩ | ⟨t₂, t₃, note, rfl, -, h⟩
    · cases hf
      obtain ⟨q, cause, hmem, rfl⟩ := failsByProver_commit version a.id s balance _ _ he
      exact .inl ⟨q, cause, List.mem_append_right _ hmem, rfl⟩
    · split at h
      case isTrue hn => exact .inr ⟨hn, Except.error.inj (Action.yields_throw_iff.1 h).2⟩
      case isFalse => simp at h

theorem yields_next?_overflow {m : Movement} {a : Account} {amount : UInt256} {t : Trace}
    (h : (next? version m a amount).run.Yields t (.error .nonceOverflow)) : a.nonce = maxNonce := by
  rcases yields_next?_error h with ⟨_, _, -, he⟩ | ⟨hn, -⟩
  · cases he
  · exact hn

end Note

namespace NoteEvent

variable {f : Oracle proving} {version : ContractVersion} {a b : Account} {e : NoteEvent} {t : Trace}

/-- The event leads from the account `a` to the account `b`: its movement applies, and `b` has used
up one more nonce, has the balance after the movement and the note of the event. -/
def Leads (e : NoteEvent) (a b : Account) : Prop :=
  e.movement.appliesTo a = true ∧ a.nonce ≠ Note.maxNonce ∧
    ∃ balance, e.movement.balanceAfter? a.balance e.amount = some balance ∧
      b = .opened ⟨a.id, a.nonce + 1, balance, e.note, some e.noteIndex⟩

/-- For the prover `f`, the note of the event is the one that the account would create by the
movement the event claims. -/
def Matches (f : Oracle proving) (version : ContractVersion) (a : Account) (e : NoteEvent) : Prop :=
  e.movement.appliesTo a = true ∧ a.nonce ≠ Note.maxNonce ∧
    ∃ balance, e.movement.balanceAfter? a.balance e.amount = some balance ∧
      Note.IsNote f version a.id a.nonce balance e.note

theorem Leads.id_eq (h : e.Leads a b) : b.id = a.id := by
  obtain ⟨-, -, balance, -, rfl⟩ := h
  rfl

theorem Leads.nonce_eq (h : e.Leads a b) : b.nonce.toNat = a.nonce.toNat + 1 := by
  obtain ⟨-, hn, balance, -, rfl⟩ := h
  have hlt := a.nonce.toNat_lt
  have hne : a.nonce.toNat ≠ 18446744073709551615 := by
    intro he
    exact hn (UInt64.toNat_inj.1 he)
  show (a.nonce + 1).toNat = _
  rw [UInt64.toNat_add]
  show (a.nonce.toNat + 1) % 2 ^ 64 = _
  omega

theorem Leads.nonce_ne_zero (h : e.Leads a b) : b.nonce ≠ 0 := by
  intro h0
  have := h.nonce_eq
  rw [h0] at this
  exact absurd this (by simp)

theorem Leads.not_isUnopened (h : e.Leads a b) : b.isUnopened = false := by
  obtain ⟨-, -, balance, -, rfl⟩ := h
  rfl

theorem Leads.balance_eq (h : e.Leads a b) :
    e.movement.balanceAfter? a.balance e.amount = some b.balance := by
  obtain ⟨-, -, balance, hb, rfl⟩ := h
  exact hb

theorem Leads.note_eq (h : e.Leads a b) : b.note? = some e.note := by
  obtain ⟨-, -, balance, -, rfl⟩ := h
  rfl

/-- Only an account without a note is opened. -/
theorem Leads.movement_eq_opening_iff (h : e.Leads a b) :
    e.movement = .opening ↔ a.isUnopened = true := by
  have ha := h.1
  cases hm : e.movement <;> simp_all [Movement.appliesTo]

/-! ## Recomputing what an event claims -/

theorem announces_iff {next : Option Account} :
    e.announces next = true ↔ ∃ b, next = some b ∧ b.note? = some e.note := by
  cases next <;> simp [announces]

/-- What is claimed is what the movement makes of the account, used up nonces counting as nothing. -/
theorem yields_claimed?_cases {r : Except Failure (Option Account)}
    (ha : e.movement.appliesTo a = true) (h : (e.claimed? version a).run.Yields t r) :
    r ≠ .error .nonceOverflow ∧ (Note.next? version e.movement a e.amount).run.Yields t r ∨
      r = .ok none ∧
        (Note.next? version e.movement a e.amount).run.Yields t (.error .nonceOverflow) := by
  unfold claimed? at h
  rw [if_pos ha] at h
  rcases Action.yields_tryCatch h with ⟨next, hnext, rfl⟩ | ⟨t₁, t₂, failure, rfl, hnext, h⟩
  · exact .inl ⟨nofun, hnext⟩
  · split at h
    case isTrue hfailure =>
      obtain ⟨rfl, rfl⟩ := Action.yields_pure_iff.1 h
      rw [List.append_nil]
      exact .inr ⟨rfl, hfailure ▸ hnext⟩
    case isFalse hfailure =>
      obtain ⟨rfl, rfl⟩ := Action.yields_throw_iff.1 h
      rw [List.append_nil]
      exact .inl ⟨fun he => hfailure (Except.error.inj he), hnext⟩

/-- An announced account is what the event leads to, up to the position of the note. -/
theorem yields_claimed? {next : Account}
    (h : (e.claimed? version a).run.Yields t (.ok (some next))) (hn : next.note? = some e.note) :
    e.Leads a (next.withNoteIndex e.noteIndex) ∧
      ∀ f, t.AnsweredBy f → e.Matches f version a := by
  by_cases ha : e.movement.appliesTo a = true
  · rcases yields_claimed?_cases ha h with ⟨-, h⟩ | ⟨hnone, -⟩
    · obtain ⟨hmax, balance, note, hb, rfl, hf⟩ := Note.yields_next? h
      obtain rfl : note = e.note := by simpa [Account.note?] using hn
      exact ⟨⟨ha, hmax, balance, hb, rfl⟩, fun f ht => ⟨ha, hmax, balance, hb, hf f ht⟩⟩
    · cases hnone
  · unfold claimed? at h
    rw [if_neg ha] at h
    simp at h

/-- An event that matches is recognised. -/
theorem Matches.announces (hm : e.Matches f version a) {next : Option Account}
    (h : (e.claimed? version a).run.Yields t (.ok next)) (ht : t.AnsweredBy f) :
    e.announces next = true := by
  obtain ⟨ha, hmax, balance, hb, hnote⟩ := hm
  rcases yields_claimed?_cases ha h with ⟨-, h⟩ | ⟨-, h⟩
  case inr => exact absurd (Note.yields_next?_overflow h) hmax
  cases next with
  | none =>
    have hnone := Note.yields_next?_none h
    rw [hb] at hnone
    cases hnone
  | some next =>
    obtain ⟨-, balance', note, hb', rfl, hf⟩ := Note.yields_next? h
    obtain rfl : balance = balance' := Option.some.inj (hb.symm.trans hb')
    obtain rfl := hnote.unique (hf f ht)
    exact announces_iff.2 ⟨_, rfl, rfl⟩

theorem announces_iff_matches {next : Option Account}
    (h : (e.claimed? version a).run.Yields t (.ok next)) (ht : t.AnsweredBy f) :
    e.announces next = true ↔ e.Matches f version a := by
  refine ⟨fun ha => ?_, fun hm => hm.announces h ht⟩
  obtain ⟨b, rfl, hb⟩ := announces_iff.1 ha
  exact (yields_claimed? h hb).2 f ht

open Classical in
/-- The only matching event of a block is one of its events, and it matches. -/
theorem matches_of_single {es : List NoteEvent}
    (h : (es.filter fun e => e.Matches f version a) = [e]) : e ∈ es ∧ e.Matches f version a := by
  have hmem : e ∈ es.filter fun e => e.Matches f version a := by
    rw [h]
    exact List.mem_cons_self
  simpa using List.mem_filter.1 hmem

open Classical in
/-- The selected events are those that match, in their order. -/
theorem yields_continuing {es found : List NoteEvent}
    (h : (continuing version a es).run.Yields t (.ok found)) (ht : t.AnsweredBy f) :
    found = es.filter fun e => e.Matches f version a := by
  induction es generalizing t found with
  | nil =>
    obtain ⟨-, h⟩ := Action.yields_pure_iff.1 h
    simpa using h
  | cons e es ih =>
    obtain ⟨t₁, t', next, rfl, h₁, h⟩ := Action.yields_bind_ok h
    obtain ⟨t₂, t₃, rest, rfl, h₂, h₃⟩ := Action.yields_bind_ok h
    obtain ⟨rfl, h₃⟩ := Action.yields_pure_iff.1 h₃
    obtain rfl := ih h₂ ht.right.left
    have hiff := announces_iff_matches h₁ ht.left
    by_cases hm : e.Matches f version a
    · rw [if_pos (hiff.2 hm)] at h₃
      simpa [hm] using h₃
    · rw [if_neg (mt hiff.1 hm)] at h₃
      simpa [hm] using h₃

theorem yields_apply (h : (e.apply version a).run.Yields t (.ok b)) : e.Leads a b := by
  obtain ⟨t₁, t₂, next, rfl, h₁, h₂⟩ := Action.yields_bind_ok h
  cases next with
  | none => simp at h₂
  | some next =>
    simp only at h₂
    split at h₂
    case isTrue ha =>
      obtain ⟨next', he, hn⟩ := announces_iff.1 ha
      cases he
      obtain ⟨-, rfl⟩ : t₂ = [] ∧ b = next.withNoteIndex e.noteIndex := by simpa using h₂
      exact (yields_claimed? h₁ hn).1
    case isFalse => simp at h₂

end NoteEvent

namespace History

variable {f : Oracle proving} {version : ContractVersion} {a b : Account} {e : NoteEvent} {t : Trace}

/-- For the prover `f`, `h` is the hash whose block holds the transition that follows `a`. -/
def IsSearchHash (f : Oracle proving) (a : Account) (h : Scalar) : Prop :=
  match a with
  | .unopened id => f (.hash [id]) = .ok h
  | .opened holding => holding.nonce ≠ 0 ∧ ∃ secrets,
      f (.secrets holding.id (holding.nonce - 1)) = .ok secrets ∧
        f (.hash [secrets.nullifier]) = .ok h

/-- The hash of the search key is the search hash. -/
theorem yields_searchKey {key : SearchKey} {h : Scalar}
    (hk : (SearchKey.ofAccount a).run.Yields t (.ok key)) (ht : t.AnsweredBy f)
    (hh : f (.hash [key.value]) = .ok h) : IsSearchHash f a h := by
  cases a with
  | unopened id =>
    obtain ⟨rfl, hk⟩ := Action.yields_pure_iff.1 hk
    cases hk
    exact hh
  | opened holding =>
    obtain ⟨t₁, t', nonce, rfl, h₁, h'⟩ := Action.yields_bind_ok hk
    obtain ⟨t₂, t₃, secrets, rfl, h₂, h₃⟩ := Action.yields_bind_ok h'
    obtain ⟨rfl, hnonce⟩ := Action.yields_liftM_iff.1 h₁
    obtain rfl := Action.yields_prover_ok_iff.1 h₂
    obtain ⟨rfl, hkey⟩ := Action.yields_pure_iff.1 h₃
    cases hkey
    unfold Holding.noteNonce Holding.noteNonce? at hnonce
    by_cases h0 : holding.nonce = 0
    · simp [h0] at hnonce
    · obtain rfl : nonce = holding.nonce - 1 := by simpa [h0] using hnonce
      exact ⟨h0, secrets, ht.right.left.eq, hh⟩

/-- The selected event is of the right version, and it is the only one that matches. -/
theorem yields_select {block : UInt64} {es : List NoteEvent}
    (h : (select version a block es).run.Yields t (.ok e)) :
    e.version = version ∧
      ((NoteEvent.continuing version a es).run.Yields t (.ok [e])) := by
  obtain ⟨t₁, t₂, found, rfl, h₁, h₂⟩ := Action.yields_bind_ok h
  split at h₂
  case h_1 e' =>
    split at h₂
    case isTrue hv =>
      obtain ⟨rfl, h₂⟩ := Action.yields_pure_iff.1 h₂
      cases h₂
      exact ⟨hv, by simpa using h₁⟩
    case isFalse => simp at h₂
  case h_2 => simp at h₂

/-- What the trace of a step says: the event was emitted by the right version and leads from `a` to
`b`; it is an event of the block to which the contract has assigned the search hash, and the only one
there that matches. -/
structure Found (version : ContractVersion) (t : Trace) (a : Account) (e : NoteEvent)
    (b : Account) : Prop where
  version_eq : e.version = version
  leads : e.Leads a b
  answered : ∃ h block es,
    (⟨.contract (.nullifierBlock h), .ok (some block)⟩ : Exchange surroundings) ∈ t ∧
    (⟨.contract (.events block), .ok es⟩ : Exchange surroundings) ∈ t ∧
    ∀ f, t.AnsweredBy f → IsSearchHash f a h ∧
      open Classical in es.filter (fun e => e.Matches f version a) = [e]

/-- What a step has found. -/
theorem yields_next? (h : (next? version a).run.Yields t (.ok (some (b, e)))) :
    Found version t a e b := by
  obtain ⟨t₁, t₁', key, rfl, hkey, h₁⟩ := Action.yields_bind_ok h
  obtain ⟨t₂, t₂', hash, rfl, hhash, h₂⟩ := Action.yields_bind_ok h₁
  obtain ⟨t₃, t₃', found, rfl, hblock, h₃⟩ := Action.yields_bind_ok h₂
  obtain rfl := Action.yields_prover_ok_iff.1 hhash
  obtain rfl := Action.yields_contract_ok_iff.1 hblock
  cases found with
  | none => exact absurd (Action.yields_pure_iff.1 h₃).2 (by simp)
  | some block =>
    obtain ⟨t₄, t₄', es, rfl, hevents, h₄⟩ := Action.yields_bind_ok h₃
    obtain ⟨t₅, t₅', e', rfl, hselect, h₅⟩ := Action.yields_bind_ok h₄
    obtain ⟨t₆, t₆', b', rfl, happly, h₆⟩ := Action.yields_bind_ok h₅
    obtain ⟨rfl, hr⟩ := Action.yields_pure_iff.1 h₆
    cases hr
    obtain rfl := Action.yields_contract_ok_iff.1 hevents
    obtain ⟨hv, hcontinuing⟩ := yields_select hselect
    refine ⟨hv, NoteEvent.yields_apply happly, hash, block, es, by simp, by simp, fun f ht => ?_⟩
    refine ⟨yields_searchKey hkey ht.left ht.right.left.eq, ?_⟩
    exact (NoteEvent.yields_continuing hcontinuing ht.right.right.right.right.left).symm

end History

end ShieldedWallet
