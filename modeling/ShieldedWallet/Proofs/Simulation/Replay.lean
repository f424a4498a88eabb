import ShieldedWallet.Proofs.Simulation.Entire

/-!
# Replaying a growing chain

While the ledger grows, a wallet now and then brings its account up to date. What its owner has been
told meanwhile is what a replay on the present ledger begins with, and all of it right after a pass.
The hash plays no part in this: an account whose hashes collide is only led elsewhere, by passes and
replays alike.
-/

namespace ShieldedWallet

open History (Follows lastOf Step)
open Program (Amid)

namespace History

variable {version : ContractVersion} {R : Account → NoteEvent → Account → Prop} {t : Trace}

/-- The transactions of a replay are those of a walk. -/
theorem yields_replayFrom {n : Nat} {a : Account} {ts : List Transaction} {e : Option Failure}
    (h : (replayFrom version n a).Yields t (ts, e))
    (hR : ∀ t' a b e, t' <:+: t → (next? version a).run.Yields t' (.ok (some (b, e))) → R a e b) :
    ∃ xs, Follows R a xs ∧ ts = xs.map fun x => x.event.transaction := by
  obtain ⟨xs, hxs, hts, -⟩ := yields_replayFrom_ends h hR
  exact ⟨xs, hxs, hts⟩

theorem confined_replayFrom (n : Nat) (a : Account) :
    (replayFrom version n a).Confined Query.IsLookup := by
  induction n generalizing a with
  | zero => exact Program.confined_done _
  | succ n ih =>
    refine (confined_next? a).bind fun found => ?_
    cases found with
    | error f => exact Program.confined_done _
    | ok found =>
      cases found with
      | none => exact Program.confined_done _
      | some found => exact (ih _).bind fun _ => Program.confined_done _

end History

namespace Simulation

variable {f : Oracle proving} {c storage : Nat} {wallet : Wallet} {w w' w'' : World}
  {ts : List Transaction}

/-- The history is the replay, also if it is cut off. -/
theorem run_history {σ : Type} (env : Environment surroundings σ) (wallet : Wallet) (s : σ) :
    (wallet.history.run env s).1 =
      ((History.replay wallet.settings.version wallet.id).run env s).1 := by
  unfold Wallet.history
  rw [Program.bind_eq, Program.run_bind]
  cases ((History.replay wallet.settings.version wallet.id).run env s).1 with
  | mk ts e => cases e <;> rfl

theorem Serves.run_history_eq {env : Environment surroundings World} {P : World → Prop}
    (hs : Serves f env P) (hw : P w) : (wallet.history.run env w).1 =
      (History.replay wallet.settings.version wallet.id).eval (reading f w.ledger) := by
  rw [run_history]
  exact hs.run_eq_eval (History.confined_replayFrom _ _) hw

namespace World

/-- Something has happened on the ledger. -/
def Extends (w w' : World) : Prop := ∃ o : Ledger.Operation, w' = { w with ledger := o.apply w.ledger }

theorem Extends.undisturbed (h : w.Extends w') (hw : w.Undisturbed) : w'.Undisturbed := by
  obtain ⟨o, rfl⟩ := h
  exact ⟨hw.faults, hw.substitutes⟩

theorem Extends.grows (h : w.Extends w') : w.ledger.Grows w'.ledger := by
  obtain ⟨o, rfl⟩ := h
  exact Ledger.grows_apply o w.ledger

end World

/-- The world `w` has come to be from `w₀` by extensions of the ledger and by passes of the wallet,
amid extensions, that have succeeded, and `ts` is what the passes have told. -/
inductive Told (f : Oracle proving) (c storage : Nat) (wallet : Wallet) (w₀ : World) :
    List Transaction → World → Prop where
  | start : Told f c storage wallet w₀ [] w₀
  | extend {ts : List Transaction} {w w' : World} (h : Told f c storage wallet w₀ ts w)
      (hw : w.Extends w') : Told f c storage wallet w₀ ts w'
  | sync {ts : List Transaction} {w w' : World} {t : Trace} {m : Nat}
      (h : Told f c storage wallet w₀ ts w)
      (hw : Amid (World.answerBy f c storage) World.Extends wallet.sync.run w t (.ok m) w') :
      Told f c storage wallet w₀ (ts ++ Trace.reported t) w'

/-- What has been told is a walk on the present ledger, and the stored account is its last one. -/
structure UpTo (f : Oracle proving) (storage : Nat) (wallet : Wallet) (ts : List Transaction)
    (w : World) (xs : List Step) : Prop where
  undisturbed : w.Undisturbed
  follows : Follows (Next f wallet.settings.version w.ledger) (.unopened wallet.id) xs
  told_eq : ts = xs.map fun x => x.event.transaction
  read_eq : wallet.register.read (w.storages storage wallet.register.key) =
    .ok (lastOf (.unopened wallet.id) xs)

theorem UpTo.extend {xs : List Step} (h : UpTo f storage wallet ts w xs) (hw : w.Extends w') :
    UpTo f storage wallet ts w' xs := by
  refine ⟨hw.undisturbed h.undisturbed, h.follows.mono fun _ _ _ hn => hn.mono hw.grows, h.told_eq, ?_⟩
  obtain ⟨o, rfl⟩ := hw
  exact h.read_eq

/-- A pass amid extensions walks on. -/
theorem UpTo.sync {xs : List Step} {t : Trace} {m : Nat} (h : UpTo f storage wallet ts w xs)
    (hw : Amid (World.answerBy f c storage) World.Extends wallet.sync.run w t (.ok m) w') :
    ∃ ys, UpTo f storage wallet (ts ++ Trace.reported t) w' (xs ++ ys) ∧
      History.Ends wallet.settings.version wallet.register t (lastOf (.unopened wallet.id) xs) ys
        (History.stepsLeft (lastOf (.unopened wallet.id) xs)) (.ok m) ys.length := by
  obtain ⟨hw', hg, hread⟩ := (World.serves_answerBy f c storage).amid
    (fun _ _ hu hx => ⟨hx.undisturbed hu, hx.grows⟩) hw h.undisturbed
  have hkeep := (World.keeps_answerBy f c storage wallet.register.key).amid
    (fun _ _ hx => by obtain ⟨o, rfl⟩ := hx; rfl) hw
  obtain ⟨ys, hy, hend⟩ := History.walked_pass (Action.yields_reporting_ok hw.yields) hkeep h.read_eq
    fun t' a b e ht' hn => next_of_yields hn fun x hx hl => hread x (ht'.subset hx) hl
  refine ⟨ys, ⟨hw', ?_, ?_, ?_⟩, ?_⟩
  · exact History.follows_append.2 ⟨h.follows.mono fun _ _ _ hn => hn.mono hg, hy.follows⟩
  · rw [h.told_eq, hy.reported_eq, List.map_append]
  · rw [History.lastOf_append]
    exact hy.read_eq (fun _ _ _ hn => hn.leads) hkeep h.read_eq
  · rcases hend with hend | ⟨e, x, he, -⟩
    · exact hend
    · cases he

theorem Told.upTo {w₀ : World} (h : Told f c storage wallet w₀ ts w) (h₀ : w₀.Undisturbed)
    (hempty : w₀.storages storage wallet.register.key = none) :
    ∃ xs, UpTo f storage wallet ts w xs := by
  induction h with
  | start => exact ⟨[], h₀, trivial, rfl, by rw [hempty]; exact Register.read_none⟩
  | extend _ hw ih =>
    obtain ⟨xs, hx⟩ := ih
    exact ⟨xs, hx.extend hw⟩
  | sync _ hw ih =>
    obtain ⟨xs, hx⟩ := ih
    obtain ⟨ys, hy, -⟩ := hx.sync hw
    exact ⟨xs ++ ys, hy⟩

/-- What a wallet that began with an empty storage has told, while the ledger grew, is what the
replay on the present ledger begins with; after one more pass that succeeds it is the whole replay.
And however often a replay is asked for its next transaction while the ledger grows, what it gives is
what a replay on the later ledger begins with. -/
theorem told_prefix_history {w₀ : World} (h : Told f c storage wallet w₀ ts w) (h₀ : w₀.Undisturbed)
    (hempty : w₀.storages storage wallet.register.key = none) :
    ts <+: (wallet.history.run (World.answerBy f c storage) w).1.1 ∧
    (∀ m w', wallet.sync.run.run (World.answerBy f c storage) w = (.ok m, w') →
      (wallet.history.run (World.answerBy f c storage) w').1 =
        (ts ++ Trace.reported (wallet.sync.run.trace (World.answerBy f c storage) w), none)) ∧
    ∀ n t us e w', Amid (World.answerBy f c storage) World.Extends
      (History.replayFrom wallet.settings.version n (.unopened wallet.id)) w t (us, e) w' →
        us <+: (wallet.history.run (World.answerBy f c storage) w').1.1 := by
  have hserves := World.serves_answerBy f c storage
  obtain ⟨xs, hx⟩ := h.upTo h₀ hempty
  refine ⟨?_, fun m w' hrun => ?_, fun n t us e w' hamid => ?_⟩
  · rw [hserves.run_history_eq hx.undisturbed, hx.told_eq]
    exact prefix_replay hx.follows
  · have hamid := Program.amid_run (World.answerBy f c storage) World.Extends wallet.sync.run w
    rw [hrun] at hamid
    obtain ⟨ys, hy, hend⟩ := hx.sync hamid
    obtain ⟨-, hblocks, hread⟩ := hserves.run_quiet wallet.quiet_sync hx.undisturbed
    rw [hrun] at hblocks
    rw [hserves.run_history_eq hy.undisturbed, hy.told_eq]
    refine eval_replay hy.follows ?_
    rw [History.lastOf_append]
    have hlt := (History.follows_append.1 hy.follows).2.mono (fun _ _ _ hn => hn.leads) |>.length_lt
    -- the pass has ended because it found no step, so the replay ends there as well
    cases hend with
    | cutOff hlen => omega
    | last ht hnone =>
      refine hnone.eval_eq fun x hx => ?_
      have hl := hnone.confined (History.confined_next? _) x hx
      rw [hread x (ht.subset hx) hl]
      exact reading_eq hblocks hl
  · obtain ⟨hw', -, hread⟩ := hserves.amid
      (fun _ _ hu hx => ⟨hx.undisturbed hu, hx.grows⟩) hamid hx.undisturbed
    obtain ⟨ys, hys, rfl⟩ := History.yields_replayFrom hamid.yields fun t' a b e ht' hn =>
      next_of_yields hn fun x hx hl => hread x (ht'.subset hx) hl
    rw [hserves.run_history_eq hw']
    exact prefix_replay hys

/-- The first pass of the wallet takes one step and tells the whole history of its account. -/
theorem told_prefix_history_opened7 :
    (wallet7.sync.run.run (World.answerBy (proverAnswer false) 0 0) opened7).1 = .ok 1 ∧
      (wallet7.history.run (World.answerBy (proverAnswer false) 0 0)
        (wallet7.sync.run.run (World.answerBy (proverAnswer false) 0 0) opened7).2).1 =
        (Trace.reported (wallet7.sync.run.trace (World.answerBy (proverAnswer false) 0 0) opened7),
          none) := by
  have htold : Told (proverAnswer false) 0 0 wallet7 (World.new .direct 1) [] opened7 :=
    Told.start.extend ⟨.register 7 100, rfl⟩
  obtain ⟨b, hentire⟩ := entire_opened7
  obtain ⟨w', -, hpass⟩ := hentire.pass (World.serves_answerBy simulated 0 0)
    (World.steady_answerBy simulated 0 0) (World.keeps_answerBy simulated 0 0 wallet7.register.key)
    undisturbed_opened7 Register.read_none
  have hrun := (Action.run_reporting_ok .syncing .sync hpass.run_eq).1
  have hhistory := (told_prefix_history htold ⟨rfl, rfl⟩ rfl).2.1 1 w' hrun
  rw [List.nil_append] at hhistory
  have hsync : wallet7.sync.run.run (World.answerBy simulated 0 0) opened7 = (.ok 1, w') := hrun
  rw [hsync]
  exact ⟨rfl, hhistory⟩

end Simulation

end ShieldedWallet
