import ShieldedWallet.Proofs.Simulation.Entire
import ShieldedWallet.Proofs.Simulation.Replay

/-!
# Passes from any record

Whatever a pass finds under the key of its register, be it nothing, something unreadable or a record of
an earlier time, it leads to the same record. All these stand for accounts on one walk: an earlier pass
has gone through a beginning of it, as the steps of the walk remain steps while the ledger grows.
-/

namespace ShieldedWallet.Simulation

open History (Step Follows lastOf)
open Program (Amid)

/-- The ledger has become `l'` by operations. -/
inductive Ledger.Becomes (l : Ledger) : Ledger → Prop
  | refl : Becomes l l
  | step {l' : Ledger} (h : Becomes l l') (o : Ledger.Operation) : Becomes l (o.apply l')

theorem Ledger.Becomes.grows {l l' : Ledger} (h : l.Becomes l') : l.Grows l' := by
  induction h with
  | refl => exact .refl l
  | step _ o ih => exact ih.trans (Ledger.grows_apply o _)

variable (f : Oracle proving) (c storage : Nat) (version : ContractVersion) (r : Register)

/-- What may be found under the key of the register when the ledger is `l`. -/
inductive Usual : Ledger → Option Bytes → Prop
  | absent {l : Ledger} : Usual l none
  /-- The bytes are no text, or not that of a record. -/
  | unreadable {l : Ledger} {bs : Bytes}
      (h : ∀ s, String.fromUTF8? ⟨bs.toArray⟩ = some s → AccountRecord.format.codec.parse? s = none) :
      Usual l (some bs)
  /-- The record is of another layout. -/
  | outdated {l : Ledger} {bs : Bytes} {s : String} {record : AccountRecord}
      (hs : String.fromUTF8? ⟨bs.toArray⟩ = some s)
      (hrecord : AccountRecord.format.codec.parse? s = some record)
      (hlayout : record.layout ≠ AccountRecord.currentLayout) : Usual l (some bs)
  /-- The record is one of the account without a nonce. -/
  | blank {l : Ledger} {bs : Bytes} {record : AccountRecord}
      (hrecord : AccountRecord.ofBytes? bs = some record) (hid : record.idHash = r.idHash)
      (hnonce : record.nonce = 0) : Usual l (some bs)
  /-- A pass has stored the record, however it ended, and then the ledger has become `l`. -/
  | written {l : Ledger} {w w' : World} {t : Trace} {res : Except Failure Nat} {item : Bytes}
      (hw : w.Undisturbed) (hbefore : Usual w.ledger (w.storages storage r.key))
      (hpass : Amid (World.answerBy f c storage) World.Extends (History.pass version r).run w t res w')
      (hitem : item ∈ t.stored r.key) (hl : w'.ledger.Becomes l) : Usual l (some item)

variable {f c storage version r} {l : Ledger} {content : Option Bytes} {w w₀ : World} {n : Nat}

theorem read_of_unreadable {bs : Bytes} (h : AccountRecord.ofBytes? bs = none) :
    r.read (some bs) = .ok (.unopened r.id) := by
  simp only [Register.read, Option.bind_some, h]

/-- What is found stands for an account on the walk, and it is the very record of this account unless
the account is unopened. -/
theorem Usual.walk (h : Usual f c storage version r l content) :
    ∃ xs, Follows (Next f version l) (.unopened r.id) xs ∧
      r.read content = .ok (lastOf (.unopened r.id) xs) ∧
      (xs ≠ [] → content = some (r.item (lastOf (.unopened r.id) xs))) := by
  induction h with
  | absent => exact ⟨[], trivial, Register.read_none, fun hne => absurd rfl hne⟩
  | @unreadable l bs h =>
    have hnone : AccountRecord.ofBytes? bs = none := by
      unfold AccountRecord.ofBytes?
      cases hs : String.fromUTF8? ⟨bs.toArray⟩ with
      | none => rfl
      | some s => simp [h s hs]
    exact ⟨[], trivial, read_of_unreadable hnone, fun hne => absurd rfl hne⟩
  | @outdated l bs s record hs hrecord hlayout =>
    have hnone : AccountRecord.ofBytes? bs = none := by
      simp [AccountRecord.ofBytes?, hs, hrecord, hlayout]
    exact ⟨[], trivial, read_of_unreadable hnone, fun hne => absurd rfl hne⟩
  | @blank l bs record hrecord hid hnonce =>
    have hread : r.read (some bs) = .ok (.unopened r.id) := by
      simp only [Register.read, Option.bind_some, hrecord, if_pos hid]
      simp [AccountRecord.toAccount, hnonce]
    exact ⟨[], trivial, hread, fun hne => absurd rfl hne⟩
  | @written l w w' t res item hw _ hpass hitem hl ih =>
    obtain ⟨xs, hxs, hread, -⟩ := ih
    obtain ⟨-, hg, hlook⟩ := (World.serves_answerBy f c storage).amid
      (fun _ _ hu hx => ⟨hx.undisturbed hu, hx.grows⟩) hpass hw
    have hkeeps := (World.keeps_answerBy f c storage r.key).amid
      (fun _ _ hx => by obtain ⟨o, rfl⟩ := hx; rfl) hpass
    obtain ⟨ys, hy, -⟩ := History.walked_pass (R := Next f version w'.ledger) hpass.yields hkeeps hread
      fun t' a b e ht hn => next_of_yields hn fun x hx hl => hlook x (ht.subset hx) hl
    -- the record is that of a step of the pass
    rw [hy.stored_eq] at hitem
    obtain ⟨y, hmem, rfl⟩ := List.mem_map.1 hitem
    obtain ⟨us, vs, rfl⟩ := List.append_of_mem hmem
    have hwalk : Follows (Next f version w'.ledger) (.unopened r.id) (xs ++ (us ++ [y])) := by
      have hfollows := hy.follows
      rw [List.append_cons] at hfollows
      exact History.follows_append.2
        ⟨hxs.mono fun _ _ _ hn => hn.mono hg, (History.follows_append.1 hfollows).1⟩
    have hlast : lastOf (.unopened r.id) (xs ++ (us ++ [y])) = y.account := by
      rw [History.lastOf_append, History.lastOf_append, History.lastOf_cons, History.lastOf_nil]
    have hleads := hwalk.mono fun _ _ _ hn => hn.leads
    have hid := hleads.id_lastOf
    have hn := hleads.nonce_lastOf
    rw [hlast] at hid hn
    have hnonce : y.account.nonce ≠ 0 := by
      intro h0
      rw [h0] at hn
      simp at hn
    refine ⟨xs ++ (us ++ [y]), hwalk.mono fun _ _ _ hn => hn.mono hl.grows, ?_, fun _ => ?_⟩
    · rw [hlast]
      exact Register.read_item hid (.inr hnonce)
    · rw [hlast]

theorem run_load (hw : w.Undisturbed) :
    (r.load.run.run (World.answerBy f c storage) w).1 = r.read (w.storages storage r.key) :=
  congrArg Prod.fst (hw.run_load f c storage r)

/-- If a pass from an empty storage succeeds on a ledger with `n` transitions, then a pass from any
other usual record of the account succeeds with those that are missing. The states afterwards are the
same, and so are the records if there is a transition at all. -/
theorem passes_converge (h₀ : w₀.Undisturbed) (hw : w.Undisturbed) (hl : w.ledger = w₀.ledger)
    (hempty : w₀.storages storage r.key = none)
    (hn : ((History.pass version r).run.run (World.answerBy f c storage) w₀).1 = .ok n)
    (hcontent : Usual f c storage version r w.ledger (w.storages storage r.key)) :
    ∃ a b w₀' w',
      (History.pass version r).run.run (World.answerBy f c storage) w₀ = (.ok n, w₀') ∧
      (r.load.run.run (World.answerBy f c storage) w₀').1 = .ok b ∧
      (r.load.run.run (World.answerBy f c storage) w).1 = .ok a ∧ a.nonce.toNat ≤ n ∧
      (History.pass version r).run.run (World.answerBy f c storage) w =
        (.ok (n - a.nonce.toNat), w') ∧
      (r.load.run.run (World.answerBy f c storage) w').1 = .ok b ∧
      (0 < n → w₀'.storages storage r.key = some (r.item b) ∧
        w'.storages storage r.key = some (r.item b)) := by
  have hserves := World.serves_answerBy f c storage
  have hsteady := World.steady_answerBy f c storage
  have hkeeps := World.keeps_answerBy f c storage r.key
  have hread₀ : r.read (w₀.storages storage r.key) = .ok (.unopened r.id) := by
    rw [hempty]
    exact Register.read_none
  -- the pass from the empty storage goes through the entire walk
  obtain ⟨zs, hentire, rfl⟩ := entire_of_pass hserves hkeeps h₀ hread₀ hn
  obtain ⟨w₀', hw₀', hpass₀⟩ := hentire.pass hserves hsteady hkeeps h₀ hread₀
  -- what is found stands for a beginning of this walk, and the pass goes through the rest
  obtain ⟨xs, hxs, hread, hitem⟩ := hcontent.walk
  rw [hl] at hxs
  obtain ⟨ys, rfl⟩ := hentire.begins hxs
  have hrest := hentire.drop
  rw [← hl] at hrest
  obtain ⟨w', hw', hpass⟩ := hrest.pass hserves hsteady hkeeps hw hread
  have hnonce : (lastOf (.unopened r.id) xs).nonce.toNat = xs.length :=
    (hxs.mono fun _ _ _ hn => hn.leads).nonce_lastOf.trans (Nat.zero_add _)
  have hlast : lastOf (lastOf (.unopened r.id) xs) ys = lastOf (.unopened r.id) (xs ++ ys) :=
    (History.lastOf_append _ _ _).symm
  refine ⟨lastOf (.unopened r.id) xs, lastOf (.unopened r.id) (xs ++ ys), w₀', w', hpass₀.run_eq, ?_, ?_,
    ?_, ?_, ?_, fun hpos => ⟨?_, ?_⟩⟩
  · rw [run_load hw₀']
    exact hpass₀.read_eq
  · rw [run_load hw]
    exact hread
  · rw [hnonce, List.length_append]
    omega
  · rw [hpass.run_eq, hnonce, List.length_append, Nat.add_sub_cancel_left]
  · rw [run_load hw', ← hlast]
    exact hpass.read_eq
  · have hne : xs ++ ys ≠ [] := List.length_pos_iff.1 hpos
    rw [hpass₀.item_eq, History.getLast?_items r _ hne, Option.some_or]
  · rw [hpass.item_eq]
    by_cases hys : ys = []
    · -- nothing was missing, so the record had been stored before
      have hne : xs ≠ [] := by
        intro hxs
        rw [hxs, hys] at hpos
        exact Nat.lt_irrefl 0 hpos
      rw [hys, List.append_nil, hitem hne]
      rfl
    · rw [History.getLast?_items r _ hys, Option.some_or, hlast]

/-- The same ledger as in `opened7`, and something unreadable in the storage. -/
def garbled7 : World := opened7.storeItem 0 "accountState" [0xff]

/-- The wallet finds the opening of its account, whether its storage is empty or garbled, and stores the
same record of it. -/
theorem passes_converge_garbled7 :
    ∃ b w₀' w',
      (History.pass .supported wallet7.register).run.run (World.answerBy simulated 0 0) opened7 =
        (.ok 1, w₀') ∧
      (History.pass .supported wallet7.register).run.run (World.answerBy simulated 0 0) garbled7 =
        (.ok 1, w') ∧
      w₀'.storages 0 "accountState" = some (wallet7.register.item b) ∧
      w'.storages 0 "accountState" = some (wallet7.register.item b) := by
  have hgarbled : garbled7.Undisturbed := ⟨rfl, rfl⟩
  obtain ⟨b, hentire⟩ := entire_opened7
  obtain ⟨w, -, hpass⟩ := hentire.pass (w := opened7) (r := wallet7.register)
    (World.serves_answerBy simulated 0 0) (World.steady_answerBy simulated 0 0)
    (World.keeps_answerBy simulated 0 0 "accountState") undisturbed_opened7 Register.read_none
  have hone : ((History.pass .supported wallet7.register).run.run (World.answerBy simulated 0 0)
      opened7).1 = .ok 1 := by
    rw [hpass.run_eq]
    rfl
  have hnone : String.fromUTF8? ⟨#[0xff]⟩ = none := by decide +kernel
  have hcontent : Usual simulated 0 0 .supported wallet7.register garbled7.ledger
      (garbled7.storages 0 wallet7.register.key) :=
    Usual.unreadable fun s hs => by cases hnone.symm.trans hs
  obtain ⟨a, b', w₀', w', h₀, -, ha, -, h, -, hstored⟩ :=
    passes_converge undisturbed_opened7 hgarbled rfl rfl hone hcontent
  have hread : wallet7.register.read (garbled7.storages 0 wallet7.register.key) = .ok (.unopened 7) := by
    have hbytes : AccountRecord.ofBytes? [0xff] = none := by simp [AccountRecord.ofBytes?, hnone]
    exact read_of_unreadable hbytes
  rw [run_load hgarbled, hread] at ha
  obtain rfl := Except.ok.inj ha
  exact ⟨b', w₀', w', h₀, h, hstored Nat.one_pos⟩

end ShieldedWallet.Simulation
