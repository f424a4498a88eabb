import ShieldedWallet.Proofs.History.Selective
import ShieldedWallet.Proofs.Simulation.Plain

/-!
# Selection and application

A step selects the events that continue the account and then applies the selected one, and both
recompute what an event claims. With a deterministic prover they agree: an event is selected if and
only if it would be applied. So an application never fails for what the event claims, and when the
number of selected events is not one, it is the number of those that would have been applied.
-/

namespace ShieldedWallet

namespace Action

theorem yields_contract_error {q : ContractQuery} {t : Trace} {failure : Failure}
    (h : (contract q).run.Yields t (.error failure)) : ∃ cause, failure = .ofContract cause := by
  obtain ⟨r, -, he⟩ := yields_ofProgram_iff.1 h
  cases r with
  | ok r => cases he
  | error cause => exact ⟨cause, Except.error.inj he⟩

end Action

open Simulation (World reading eval_claimed)

variable {f : Oracle proving} {version : ContractVersion} {a b : Account} {e : NoteEvent} {t : Trace}
  {failure : Failure}

/-! ## One event -/

namespace NoteEvent

/-- What a matching event claims is recomputed without a failure, since only the prover is asked, and
it has answered all that makes the event match. -/
theorem Matches.not_error (hm : e.Matches f version a) (ht : t.AnsweredBy f) :
    ¬ (e.claimed? version a).run.Yields t (.error failure) := by
  intro h
  obtain ⟨next, hnext, -⟩ := eval_claimed (o := reading f {}) (fun q => rfl) hm
  let K : Query → Prop := fun q => ∃ p, q = .prover p
  have hprover := h.confined (confined_claimed? (K := K) (fun p => ⟨p, rfl⟩) e)
  have herror := h.eval_eq (o := reading f {}) fun x hx => by
    obtain ⟨q, r⟩ := x
    obtain ⟨p, rfl⟩ := hprover _ hx
    exact (ht p r hx).symm
  rw [hnext] at herror
  cases herror

/-- An event is applied if and only if it matches. -/
theorem isOk_apply_iff {r : Except Failure Account} (h : (e.apply version a).run.Yields t r)
    (ht : t.AnsweredBy f) : r.isOk = true ↔ e.Matches f version a := by
  rcases Action.yields_bind h with ⟨failure, he, rfl⟩ | ⟨t₁, t₂, next, rfl, h₁, h₂⟩
  · exact iff_of_false (by simp [Except.isOk, Except.toBool]) fun hm => hm.not_error ht he
  · rw [← announces_iff_matches h₁ ht.left]
    cases next with
    | none =>
      obtain ⟨-, rfl⟩ := Action.yields_throw_iff.1 h₂
      simp [announces, Except.isOk, Except.toBool]
    | some b =>
      simp only at h₂
      by_cases ha : e.announces (some b) = true
      · rw [if_pos ha] at h₂
        obtain ⟨-, rfl⟩ := Action.yields_pure_iff.1 h₂
        exact iff_of_true rfl ha
      · rw [if_neg ha] at h₂
        obtain ⟨-, rfl⟩ := Action.yields_throw_iff.1 h₂
        exact iff_of_false (by simp [Except.isOk, Except.toBool]) ha

section

variable {σ : Type} {env : Environment surroundings σ}

/-- Whether the event is applied to the account. -/
def applies (env : Environment surroundings σ) (version : ContractVersion) (a : Account) (s : σ)
    (e : NoteEvent) : Bool := ((e.apply version a).run.run env s).1.isOk

theorem applies_iff (hf : ∀ q s, (env (.prover q) s).1 = f q) (s : σ) :
    e.applies env version a s = true ↔ e.Matches f version a :=
  isOk_apply_iff (Program.yields_trace env (e.apply version a).run s)
    (History.answeredBy_trace hf _ s)

open Classical in
theorem filter_matches (hf : ∀ q s, (env (.prover q) s).1 = f q) (s : σ) (es : List NoteEvent) :
    (es.filter fun e => e.Matches f version a) = es.filter (applies env version a s) := by
  refine List.filter_congr fun e _ => ?_
  rw [Bool.eq_iff_iff, decide_eq_true_iff, applies_iff hf s]

end

end NoteEvent

/-! ## One step -/

namespace History

/-- The contract has assigned the block `block` to the hash, and the next answer has been that these
are its events. -/
def BlockRead (t : Trace) (h : Scalar) (block : UInt64) (es : List NoteEvent) : Prop :=
  ([⟨.contract (.nullifierBlock h), .ok (some block)⟩, ⟨.contract (.events block), .ok es⟩] :
    Trace) <:+: t

/-- How a step can fail: the prover or the contract fails, or the only matching event is of another
version, or there is not just one matching event in the block to which the contract has assigned the
search hash. -/
inductive StepFails (f : Oracle proving) (version : ContractVersion) (t : Trace) (a : Account) :
    Failure → Prop where
  | prover (cause : ProverFailure) : StepFails f version t a (.prover cause)
  | contract (cause : ContractFailure) : StepFails f version t a (.ofContract cause)
  | version (found : ContractVersion) : StepFails f version t a (.eventVersion version found)
  | count {h : Scalar} {block : UInt64} {es found : List NoteEvent} (hh : IsSearchHash f a h)
      (hread : BlockRead t h block es)
      (hfound : open Classical in found = es.filter fun e => e.Matches f version a)
      (hcount : found.length ≠ 1) :
      StepFails f version t a (.history (.eventCount block found.length))

theorem StepFails.mono {t' : Trace} (h : StepFails f version t a failure) (ht : t <:+: t') :
    StepFails f version t' a failure := by
  cases h with
  | prover cause => exact .prover cause
  | contract cause => exact .contract cause
  | version found => exact .version found
  | count hh hread hfound hcount => exact .count hh (hread.trans ht) hfound hcount

/-- The search key of an account that is unopened or has created a note is left open only by the
prover. -/
theorem yields_searchKey_error (h : (SearchKey.ofAccount a).run.Yields t (.error failure))
    (ha : a.isUnopened = true ∨ a.nonce ≠ 0) : ∃ cause, failure = .prover cause := by
  cases a with
  | unopened id => exact absurd (Action.yields_pure_iff.1 h).2 (by simp)
  | opened holding =>
    have h0 : holding.nonce ≠ 0 := by simpa [Account.isUnopened, Account.nonce] using ha
    rcases Action.yields_bind h with ⟨_, he, hfailure⟩ | ⟨t₁, t', nonce, rfl, -, h'⟩
    · have hnonce := (Action.yields_liftM_iff.1 he).2
      simp [Holding.noteNonce, Holding.noteNonce?, h0] at hnonce
    rcases Action.yields_bind h' with ⟨_, he, hfailure⟩ | ⟨t₂, t₃, s, rfl, -, h₃⟩
    · cases hfailure
      obtain ⟨-, cause, -, hcause⟩ := Action.failsByProver_prover _ _ _ he
      exact ⟨cause, hcause⟩
    · exact absurd (Action.yields_pure_iff.1 h₃).2 (by simp)

open Classical in
/-- The selection fails with the prover, or for the version of the only matching event, or for the
number of the matching events. -/
theorem yields_select_error {block : UInt64} {es : List NoteEvent}
    (h : (select version a block es).run.Yields t (.error failure)) (ht : t.AnsweredBy f) :
    (∃ cause, failure = .prover cause) ∨ (∃ found, failure = .eventVersion version found) ∨
      ∃ found, found = (es.filter fun e => e.Matches f version a) ∧ found.length ≠ 1 ∧
        failure = .history (.eventCount block found.length) := by
  rcases Action.yields_bind h with ⟨_, he, hfailure⟩ | ⟨t₁, t₂, found, rfl, h₁, h₂⟩
  · cases hfailure
    obtain ⟨-, cause, -, hcause⟩ := NoteEvent.failsByProver_continuing version a es _ _ he
    exact .inl ⟨cause, hcause⟩
  · have hfound := NoteEvent.yields_continuing h₁ ht.left
    split at h₂
    case h_1 e =>
      by_cases hv : e.version = version
      · rw [if_pos hv] at h₂
        exact absurd (Action.yields_pure_iff.1 h₂).2 (by simp)
      · rw [if_neg hv] at h₂
        exact .inr (.inl ⟨e.version, Except.error.inj (Action.yields_throw_iff.1 h₂).2⟩)
    case h_2 hsingle =>
      refine .inr (.inr ⟨found, hfound, ?_, Except.error.inj (Action.yields_throw_iff.1 h₂).2⟩)
      intro hlength
      obtain ⟨e, he⟩ := List.length_eq_one_iff.1 hlength
      exact hsingle e he

/-- What was selected is applied, unless the prover fails. -/
theorem yields_apply_error (hm : e.Matches f version a) (ht : t.AnsweredBy f) :
    ¬ (e.apply version a).run.Yields t (.error failure) := by
  intro h
  have hok := (NoteEvent.isOk_apply_iff h ht).2 hm
  cases hok

/-- How a step fails from an account that is unopened or has created a note. -/
theorem yields_next?_error (h : (next? version a).run.Yields t (.error failure))
    (ha : a.isUnopened = true ∨ a.nonce ≠ 0) (ht : t.AnsweredBy f) :
    StepFails f version t a failure := by
  rcases Action.yields_bind h with ⟨_, he, hfailure⟩ | ⟨t₁, t₁', key, rfl, hkey, h₁⟩
  · cases hfailure
    obtain ⟨cause, rfl⟩ := yields_searchKey_error he ha
    exact .prover cause
  rcases Action.yields_bind h₁ with ⟨_, he, hfailure⟩ | ⟨t₂, t₂', hash, rfl, hhash, h₂⟩
  · cases hfailure
    obtain ⟨-, cause, -, rfl⟩ := Action.failsByProver_prover _ _ _ he
    exact .prover cause
  rcases Action.yields_bind h₂ with ⟨_, he, hfailure⟩ | ⟨t₃, t₃', found, rfl, hblock, h₃⟩
  · cases hfailure
    obtain ⟨cause, rfl⟩ := Action.yields_contract_error he
    exact .contract cause
  obtain rfl := Action.yields_prover_ok_iff.1 hhash
  obtain rfl := Action.yields_contract_ok_iff.1 hblock
  cases found with
  | none => exact absurd (Action.yields_pure_iff.1 h₃).2 (by simp)
  | some block =>
    rcases Action.yields_bind h₃ with ⟨_, he, hfailure⟩ | ⟨t₄, t₄', es, rfl, hevents, h₄⟩
    · cases hfailure
      obtain ⟨cause, rfl⟩ := Action.yields_contract_error he
      exact .contract cause
    obtain rfl := Action.yields_contract_ok_iff.1 hevents
    have hsearch : IsSearchHash f a hash := yields_searchKey hkey ht.left ht.right.left.eq
    have hrest := ht.right.right.right.right
    rcases Action.yields_bind h₄ with ⟨_, he, hfailure⟩ | ⟨t₅, t₅', e, rfl, hselect, h₅⟩
    · cases hfailure
      rcases yields_select_error he hrest with ⟨cause, rfl⟩ | ⟨v, rfl⟩ | ⟨es', hes', hcount, rfl⟩
      · exact .prover cause
      · exact .version v
      · have hread : BlockRead
            (t₁ ++ ([⟨.prover (.hash [key.value]), .ok hash⟩] ++
              ([⟨.contract (.nullifierBlock hash), .ok (some block)⟩] ++
                ([⟨.contract (.events block), .ok es⟩] ++ t₄')))) hash block es :=
          ⟨t₁ ++ [⟨.prover (.hash [key.value]), .ok hash⟩], t₄', by simp⟩
        exact .count hsearch hread hes' hcount
    rcases Action.yields_bind h₅ with ⟨_, he, hfailure⟩ | ⟨t₆, t₆', b, rfl, -, h₆⟩
    · -- the selected event matches, so it is applied
      have hsingle := NoteEvent.yields_continuing (yields_select hselect).2 hrest.left
      have hmatches := (NoteEvent.matches_of_single hsingle.symm).2
      exact absurd he (yields_apply_error hmatches hrest.right)
    · exact absurd (Action.yields_pure_iff.1 h₆).2 (by simp)

end History

/-! ## Passes and replays -/

/-- A failure by which a step contradicts itself: the selected event is not applied, or an open
account has no note. -/
def Failure.IsInternal : Failure → Prop
  | .history (.brokenTransition _) | .notOnChain _ => True
  | _ => False

/-- A failure of keeping the account: the storage fails, or the account is another one. -/
def Failure.IsOfKeeping : Failure → Prop
  | .storage _ | .foreignRecord => True
  | _ => False

theorem Failure.IsOfKeeping.not_isInternal (h : failure.IsOfKeeping) : ¬ failure.IsInternal := by
  intro hi
  cases failure <;> first | exact h | exact hi

namespace History

theorem StepFails.not_isInternal (h : StepFails f version t a failure) : ¬ failure.IsInternal := by
  intro hi
  cases h with
  | prover cause => exact hi
  | contract cause => cases cause <;> exact hi
  | version found => exact hi
  | count hh hread hfound hcount => exact hi

theorem isOfKeeping_of_loaded {r : Register} {answer : Except StorageFailure (Option Bytes)}
    (h : loaded r answer = .error failure) : failure.IsOfKeeping := by
  cases answer with
  | error cause =>
    cases h
    exact trivial
  | ok item =>
    have hread : r.read item = .error failure := h
    unfold Register.read at hread
    split at hread
    · cases hread
    · split at hread
      · cases hread
      · cases hread
        exact trivial

theorem isOfKeeping_of_save {r : Register} (h : (r.save b).run.Yields t (.error failure)) :
    failure.IsOfKeeping := by
  rcases yields_save_failure h with ⟨-, rfl⟩ | ⟨cause, rfl, -⟩
  · trivial
  · trivial

/-- An open account to which some steps lead from one that is unopened or has created a note has
created a note itself. -/
theorem Follows.unopened_or_nonce_ne_zero {xs : List Step}
    (h : Follows (fun a e b => e.Leads a b) a xs) (ha : a.isUnopened = true ∨ a.nonce ≠ 0) :
    (lastOf a xs).isUnopened = true ∨ (lastOf a xs).nonce ≠ 0 :=
  h.invariant (P := fun b => b.isUnopened = true ∨ b.nonce ≠ 0)
    (fun _ _ _ hl _ => .inr hl.nonce_ne_zero) ha

/-- A pass fails at the storage, or at a step from an account that it has reached from the stored
one. -/
theorem yields_pass_error {r : Register} (h : (pass version r).run.Yields t (.error failure))
    (ht : t.AnsweredBy f) :
    failure.IsOfKeeping ∨
      ∃ item a xs, (⟨.load r.key, .ok item⟩ : Exchange surroundings) ∈ t ∧ r.read item = .ok a ∧
        Follows (fun a e b => e.Leads a b) a xs ∧
        (t.reported = xs.map fun x => x.event.transaction) ∧
        StepFails f version t (lastOf a xs) failure := by
  obtain ⟨answer, hload, hpass⟩ := yields_pass (R := fun a e b => e.Leads a b) h
    fun t' a b e _ hn => (yields_next? hn).leads
  cases hl : loaded r answer with
  | error e =>
    rw [hl] at hpass
    cases hpass
    exact .inl (isOfKeeping_of_loaded hl)
  | ok a =>
    rw [hl] at hpass
    obtain ⟨xs, hw, hend⟩ := hpass
    cases answer with
    | error cause => cases hl
    | ok item =>
      have hread : r.read item = .ok a := hl
      cases hend with
      | lookup ht' hn =>
        have hlast := hw.follows.unopened_or_nonce_ne_zero (Register.nonce_of_read hread)
        exact .inr ⟨item, a, xs, hload, hread, hw.follows, hw.reported_eq,
          (yields_next?_error hn hlast (ht.within ht')).mono ht'⟩
      | save _ _ _ hsave => exact .inl (isOfKeeping_of_save hsave)

/-- A replay is cut off at a step from an account that it has reached. -/
theorem yields_replay_error {n : Nat} {ts : List Transaction}
    (h : (replayFrom version n a).Yields t (ts, some failure))
    (ha : a.isUnopened = true ∨ a.nonce ≠ 0) (ht : t.AnsweredBy f) :
    ∃ xs, Follows (fun a e b => e.Leads a b) a xs ∧ (ts = xs.map fun x => x.event.transaction) ∧
      StepFails f version t (lastOf a xs) failure := by
  obtain ⟨xs, hxs, hts, hend⟩ := yields_replayFrom_ends (R := fun a e b => e.Leads a b) h
    fun t' a b e _ hn => (yields_next? hn).leads
  obtain ⟨t', ht', hn⟩ := hend failure rfl
  have hlast := hxs.unopened_or_nonce_ne_zero ha
  exact ⟨xs, hxs, hts, (yields_next?_error hn hlast (ht.within ht')).mono ht'⟩

section

variable {σ : Type} {env : Environment surroundings σ}

/-- After the transactions `ts` from `a` on, the step has failed since not one of the events of the
block, but `n` of them, would have been applied. -/
def Miscounted (f : Oracle proving) (env : Environment surroundings σ) (version : ContractVersion)
    (t : Trace) (a : Account) (ts : List Transaction) (block : UInt64) (n : Nat) : Prop :=
  n ≠ 1 ∧ ∃ xs h es, Follows (fun a e b => e.Leads a b) a xs ∧
    (ts = xs.map fun x => x.event.transaction) ∧ IsSearchHash f (lastOf a xs) h ∧
    BlockRead t h block es ∧ ∀ s, es.countP (NoteEvent.applies env version (lastOf a xs) s) = n

theorem StepFails.miscounted {xs : List Step} {block : UInt64} {n : Nat}
    (h : StepFails f version t (lastOf a xs) (.history (.eventCount block n)))
    (hf : ∀ q s, (env (.prover q) s).1 = f q) (hxs : Follows (fun a e b => e.Leads a b) a xs) :
    Miscounted f env version t a (xs.map fun x => x.event.transaction) block n := by
  generalize hfailure : Failure.history (.eventCount block n) = failure at h
  cases h with
  | prover cause => cases hfailure
  | contract cause => cases cause <;> cases hfailure
  | version found => cases hfailure
  | @count h block' es found hh hread hfound hcount =>
    cases hfailure
    refine ⟨hcount, xs, h, es, hxs, rfl, hh, hread, fun s => ?_⟩
    rw [hfound, NoteEvent.filter_matches hf s, List.countP_eq_length_filter]

/-- With a deterministic prover, the selected events are those that would be applied, unless the
prover fails. So whatever the contract and the storage answer, neither a pass nor a replay fails
because the selected event does not continue the account or because an open account has no note, and
a number of events that they complain of is the number of those that would have been applied. -/
theorem selects_what_applies (hf : ∀ q s, (env (.prover q) s).1 = f q) (version : ContractVersion)
    (s : σ) :
    (∀ a es,
      match ((NoteEvent.continuing version a es).run.run env s).1 with
      | .ok found => ∀ s', found = es.filter (NoteEvent.applies env version a s')
      | .error failure => ∃ q cause, f q = .error cause ∧ failure = .prover cause) ∧
    (∀ r failure, ((pass version r).run.run env s).1 = .error failure →
      ¬ failure.IsInternal ∧
      ∀ block n, failure = .history (.eventCount block n) →
        ∃ item a,
          (⟨.load r.key, .ok item⟩ : Exchange surroundings) ∈ (pass version r).run.trace env s ∧
          r.read item = .ok a ∧
          Miscounted f env version ((pass version r).run.trace env s) a
            (Trace.reported ((pass version r).run.trace env s)) block n) ∧
    ∀ id ts failure, ((replay version id).run env s).1 = (ts, some failure) →
      ¬ failure.IsInternal ∧
      ∀ block n, failure = .history (.eventCount block n) →
        Miscounted f env version ((replay version id).trace env s) (.unopened id) ts block n := by
  refine ⟨fun a es => ?_, fun r failure hpass => ?_, fun id ts failure hreplay => ?_⟩
  · have hyields := Program.yields_trace env (NoteEvent.continuing version a es).run s
    have ht := answeredBy_trace hf (NoteEvent.continuing version a es).run s
    cases hrun : ((NoteEvent.continuing version a es).run.run env s).1 with
    | ok found =>
      rw [hrun] at hyields
      intro s'
      rw [NoteEvent.yields_continuing hyields ht, NoteEvent.filter_matches hf s']
    | error failure =>
      rw [hrun] at hyields
      obtain ⟨q, cause, hmem, hfailure⟩ := NoteEvent.failsByProver_continuing version a es _ _ hyields
      exact ⟨q, cause, (ht q _ hmem).symm, hfailure⟩
  · have hyields := Program.yields_trace env (pass version r).run s
    rw [hpass] at hyields
    rcases yields_pass_error hyields (answeredBy_trace hf _ s) with
      hkeeping | ⟨item, a, xs, hload, hread, hxs, hreported, hfails⟩
    · refine ⟨hkeeping.not_isInternal, ?_⟩
      rintro block n rfl
      exact hkeeping.elim
    · refine ⟨hfails.not_isInternal, ?_⟩
      rintro block n rfl
      exact ⟨item, a, hload, hread, hreported ▸ hfails.miscounted hf hxs⟩
  · have hyields := Program.yields_trace env (replay version id) s
    rw [hreplay] at hyields
    obtain ⟨xs, hxs, hts, hfails⟩ := yields_replay_error hyields (.inl rfl) (answeredBy_trace hf _ s)
    refine ⟨hfails.not_isInternal, ?_⟩
    rintro block n rfl
    exact hts ▸ hfails.miscounted hf hxs

end

end History

namespace Simulation

/-- A prover that hashes elements to the first of them and proves nothing. Its secrets number the
notes of an account. -/
def numbering : Oracle proving
  | .hash xs => .ok (xs.headD 0)
  | .arity => .ok 1
  | .secrets _ nonce => .ok ⟨(Scalar.ofUInt64 nonce).succ, 0⟩
  | _ => .error (.backend "cannot be proved")

/-- The account 0 opened with 100, for that prover. -/
def numbered0 : Account := .opened ⟨0, 1, 100, noteVersion, none⟩

/-- A world in which the opening of the account 0 has been announced twice. -/
def announcedTwice : World :=
  { World.new .direct 1 with
    ledger := Ledger.repeatLastEvent { blocks := [⟨0, [announcement .opening 100 numbered0 0 1]⟩] } }

end Simulation

namespace History

open Simulation

/-- A pass complains of two events if the opening has been announced twice, and both of them would
have been applied. -/
theorem selects_what_applies_announcedTwice :
    ((pass .supported ⟨"accountState", 0, 0⟩).run.run (World.answerBy numbering 0 0)
        announcedTwice).1 = .error (.history (.eventCount 1 2)) ∧
      ∃ item a, Register.read ⟨"accountState", 0, 0⟩ item = .ok a ∧
        Miscounted numbering (World.answerBy numbering 0 0) .supported
          ((pass .supported ⟨"accountState", 0, 0⟩).run.trace (World.answerBy numbering 0 0)
            announcedTwice) a
          (Trace.reported ((pass .supported ⟨"accountState", 0, 0⟩).run.trace
            (World.answerBy numbering 0 0) announcedTwice)) 1 2 := by
  have hpass : ((pass .supported ⟨"accountState", 0, 0⟩).run.run (World.answerBy numbering 0 0)
      announcedTwice).1 = .error (.history (.eventCount 1 2)) := by
    rfl
  have hf : ∀ q s, (World.answerBy numbering 0 0 (.prover q) s).1 = numbering q := fun _ _ => rfl
  obtain ⟨-, hpasses, -⟩ := selects_what_applies hf .supported announcedTwice
  obtain ⟨-, hcount⟩ := hpasses _ _ hpass
  obtain ⟨item, a, -, hread, hmiscounted⟩ := hcount 1 2 rfl
  exact ⟨hpass, item, a, hread, hmiscounted⟩

end History

end ShieldedWallet
