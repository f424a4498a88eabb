import ShieldedWallet.Proofs.Simulation.Surroundings

/-!
# Passes at the same time

Passes over one account are started at any times and take turns, while others change the surroundings
but not the stored item. A pass loads the account only after it has begun to hold up the others, so
all of them go through one walk: what is stored and what is told are the steps of this walk, each of
them once and in their order.
-/

namespace ShieldedWallet

open Simulation (World)

namespace History

variable {version : ContractVersion} {r : Register} {R : Account → NoteEvent → Account → Prop}
  {t u : Trace} {a : Account} {xs ys : List Step} {i j : Option Bytes}

/-! ## A pass that goes on -/

/-- The trace stores the steps, which follow `a`, and tells them, but perhaps not yet the last one. -/
structure Walking (R : Account → NoteEvent → Account → Prop) (r : Register) (t : Trace) (a : Account)
    (xs : List Step) : Prop where
  follows : Follows R a xs
  stored_eq : t.stored r.key = xs.map fun x => r.item x.account
  reported_eq : ∃ ys zs, xs = ys ++ zs ∧ zs.length ≤ 1 ∧
    t.reported = ys.map fun x => x.event.transaction

theorem Walked.walking (h : Walked R r t a xs) : Walking R r t a xs :=
  ⟨h.follows, h.stored_eq, xs, [], by simp, by simp, h.reported_eq⟩

theorem Walked.append_walking (h : Walked R r t a xs) (h' : Walking R r u (lastOf a xs) ys) :
    Walking R r (t ++ u) a (xs ++ ys) := by
  obtain ⟨vs, zs, rfl, hzs, hr⟩ := h'.reported_eq
  refine ⟨follows_append.2 ⟨h.follows, h'.follows⟩, ?_, xs ++ vs, zs, by simp, hzs, ?_⟩
  · rw [Trace.stored_append, h.stored_eq, h'.stored_eq, ← List.map_append]
  · rw [Trace.reported_append, h.reported_eq, hr, List.map_append]

/-- Whenever a walk asks something, it has told the steps that it has stored, or it is about to tell
the last one. -/
theorem walking_advance {fuel applied : Nat} {q : Query}
    (h : (advance version r fuel applied a).run.Asks t q)
    (hR : ∀ t' a b e, t' <:+: t → (next? version a).run.Yields t' (.ok (some (b, e))) → R a e b) :
    ∃ xs, Walking R r t a xs := by
  induction fuel generalizing applied a t with
  | zero => exact absurd h (by simp [advance])
  | succ fuel ih =>
    rcases Action.asks_bind h with ⟨next, h₁⟩ | ⟨t₁, t', found, rfl, h₁, h'⟩
    · exact ⟨[], (walked_nil (h₁.confined (confined_next? a))).walking⟩
    cases found with
    | none => exact absurd h' (by simp)
    | some found =>
      obtain ⟨b, e⟩ := found
      have hstep : R a e b := hR t₁ a b e (List.prefix_append _ _).isInfix h₁
      have hlook := h₁.confined (confined_next? a)
      have hs₁ : Trace.stored r.key t₁ = [] := Trace.stored_of_lookups hlook
      have hr₁ := Trace.reported_of_lookups hlook
      rcases Action.asks_bind h' with h₂ | ⟨t₂, t₃, _, rfl, h₂, h''⟩
      · obtain ⟨ht₂, -⟩ := asks_save h₂
        rw [ht₂, List.append_nil]
        exact ⟨[], (walked_nil hlook).walking⟩
      obtain ⟨hr₂, ⟨-, e', he'⟩ | ⟨hs₂, -⟩⟩ := yields_save h₂
      · cases he'
      rcases Action.asks_bind h'' with h₃ | ⟨t₄, t₅, _, rfl, h₃, h₄⟩
      · -- the step is stored, and the owner is about to be told
        have ht₃ : t₃ = [] := by
          rcases Program.asks_bind_iff.1 h₃ with h₃ | ⟨_, _, _, _, _, h₃⟩
          · exact (Query.asks_program_iff.1 h₃).1
          · exact absurd h₃ (by simp)
        rw [ht₃]
        refine ⟨[⟨e, b⟩], ⟨hstep, trivial⟩, ?_, [], [⟨e, b⟩], rfl, Nat.le_refl 1, ?_⟩
        · simp [hs₁, hs₂]
        · simp [hr₁, hr₂]
      obtain ⟨rfl, -⟩ := Action.yields_notify_iff.1 h₃
      have hrest : t₅ <:+: t₁ ++ (t₂ ++ ([⟨.notify (.transaction e.transaction), ()⟩] ++ t₅)) :=
        ⟨t₁ ++ t₂ ++ [⟨.notify (.transaction e.transaction), ()⟩], [], by simp⟩
      obtain ⟨xs, hw⟩ := ih h₄ fun t' a b e ht' => hR t' a b e (ht'.trans hrest)
      obtain ⟨ys, zs, rfl, hzs, hr⟩ := hw.reported_eq
      refine ⟨⟨e, b⟩ :: (ys ++ zs), ⟨hstep, hw.follows⟩, ?_, ⟨e, b⟩ :: ys, zs, rfl, hzs, ?_⟩
      · simp [hs₁, hs₂, hw.stored_eq]
      · simp [hr₁, hr₂, hr]

theorem asks_load {q : Query} (h : r.load.run.Asks t q) : t = [] := by
  rcases Action.asks_bind h with h | ⟨t₁, t₂, item, rfl, -, h⟩
  · exact (Query.asks_program_iff.1 (Action.asks_ofProgram_iff.1 h)).1
  · exact absurd h (by simp)

theorem walking_catchUp {rest : Program surroundings (Except Failure Nat)}
    (h : (catchUp version r).run.Reaches t rest) (hk : t.Keeps r.key i j) (hread : r.read i = .ok a)
    (hR : ∀ t' a b e, t' <:+: t → (next? version a).run.Yields t' (.ok (some (b, e))) → R a e b) :
    ∃ xs, Walking R r t a xs := by
  cases rest with
  | done res =>
    obtain ⟨xs, hw, -⟩ := walked_catchUp h hk hread hR
    exact ⟨xs, hw.walking⟩
  | ask q next =>
    have hasks : (catchUp version r).run.Asks t q := ⟨next, h⟩
    rcases Action.asks_bind hasks with h₁ | ⟨t₁, t₂, a', rfl, h₁, h₂⟩
    · rw [asks_load h₁]
      exact ⟨[], (walked_nil (by simp)).walking⟩
    · obtain ⟨answer, rfl, hr⟩ := yields_load h₁
      have ha : a' = a := by
        rcases keeps_load hk with rfl | ⟨x, rfl⟩
        · exact Except.ok.inj (hr.trans hread)
        · cases hr
      rw [ha] at h₂
      have hinfix : t₂ <:+: ⟨.load r.key, answer⟩ :: t₂ := (List.suffix_cons _ _).isInfix
      obtain ⟨xs, hw⟩ := walking_advance h₂ fun t' a b e ht' => hR t' a b e (ht'.trans hinfix)
      exact ⟨xs, hw.follows, hw.stored_eq, hw.reported_eq⟩

/-! ## Nothing to catch up with -/

/-- A pass that finds the record of another account stores nothing and tells nothing. -/
theorem reaches_foreign {rest : Program surroundings (Except Failure Nat)} {f : Failure}
    (h : (catchUp version r).run.Reaches t rest) (hk : t.Keeps r.key i j)
    (hread : r.read i = .error f) : t.stored r.key = [] ∧ t.reported = [] := by
  have hload : ∀ {answer : Except StorageFailure (Option Bytes)} {u : Trace} {b : Account},
      Trace.Keeps r.key i (⟨.load r.key, answer⟩ :: u) j → loaded r answer ≠ .ok b := by
    intro answer u b hk hb
    rcases keeps_load hk with rfl | ⟨x, rfl⟩
    · have hne := hb.symm.trans hread
      cases hne
    · cases hb
  cases rest with
  | done res =>
    rcases Action.yields_bind h with ⟨e, he, -⟩ | ⟨t₁, t₂, b, rfl, h₁, -⟩
    · obtain ⟨answer, rfl, -⟩ := yields_load he
      exact ⟨rfl, rfl⟩
    · obtain ⟨answer, rfl, hr⟩ := yields_load h₁
      exact absurd hr.symm (hload hk)
  | ask q next =>
    have hasks : (catchUp version r).run.Asks t q := ⟨next, h⟩
    rcases Action.asks_bind hasks with h₁ | ⟨t₁, t₂, b, rfl, h₁, -⟩
    · rw [asks_load h₁]
      exact ⟨rfl, rfl⟩
    · obtain ⟨answer, rfl, hr⟩ := yields_load h₁
      exact absurd hr.symm (hload hk)

/-! ## Taking turns -/

/-- The passes at the scene have gone through the steps `xs` from the account `a`. What is stored
stands for the last of them. -/
structure InStep {σ : Type} (r : Register) (item : Option Bytes) (a : Account)
    (s : Scene σ (Except Failure Nat)) (xs : List Step) : Prop where
  /-- Each step uses up one nonce. -/
  leads : Follows (fun a e b => e.Leads a b) a xs
  nonce_eq : (lastOf a xs).nonce.toNat = a.nonce.toNat + xs.length
  stored_eq : s.log.stored r.key = xs.map fun x => r.item x.account
  read_eq : r.read item = .ok (lastOf a xs)
  /-- The owner has been told the steps, but perhaps not yet the one that was stored last. -/
  told_prefix : s.log.reported <+: xs.map fun x => x.event.transaction
  told_length : xs.length ≤ s.log.reported.length + 1
  told_eq : s.IsFree → s.log.reported = xs.map fun x => x.event.transaction
  /-- If all passes have ended and none has failed, their results count the steps. -/
  count_eq : ∀ ns : List Nat, s.running.map Running.rest = ns.map (fun n => .done (.ok n)) →
    xs.length = ns.sum

end History

open History

variable {version : ContractVersion} {r : Register} {a : Account} {i j : Option Bytes} {t u : Trace}
  {σ : Type} {s : Scene σ (Except Failure Nat)} {as : List (Except Failure Nat)}

/-- If all programs have ended, none holds up the others. -/
theorem HeldBy.eq_nil {α : Type} {x : Action α} {running : List (Running (Except Failure α))}
    (h : HeldBy x running u) (hdone : ∀ y ∈ running, ∃ b, y.rest = .done b) : u = [] := by
  cases h with
  | nobody _ => rfl
  | @program k u rest hk _ _ =>
    obtain ⟨b, hb⟩ := hdone _ (List.mem_of_getElem? hk)
    cases rest <;> cases hb

/-- If no program holds up the others, the log is that of complete runs. -/
theorem HeldBy.eq_nil_of_free {α : Type} {x : Action α} {running : List (Running (Except Failure α))}
    (h : HeldBy x running u) (hfree : ∀ y ∈ running, y.holds = false) : u = [] := by
  cases h with
  | nobody _ => rfl
  | program k hk _ _ => cases hfree _ (List.mem_of_getElem? hk)

/-- A program has a result just when it has ended. -/
theorem Running.result?_eq_some_iff {α : Type} {y : Running α} {b : α} :
    y.result? = some b ↔ y.rest = .done b := by
  unfold Running.result?
  cases y.rest with
  | done a => simp
  | ask q next => simp

theorem rests_eq_iff_results_eq {running : List (Running (Except Failure Nat))} {ns : List Nat} :
    (running.map Running.rest = ns.map fun n => .done (.ok n)) ↔
      running.map Running.result? = ns.map fun n => some (.ok n) := by
  induction running generalizing ns with
  | nil => simp
  | cons y running ih =>
    cases ns with
    | nil => simp
    | cons n ns =>
      simp only [List.map_cons, List.cons.injEq, Running.result?_eq_some_iff, ih]

theorem results_of_done {running : List (Running (Except Failure Nat))} {ns : List Nat}
    (h : running.map Running.rest = ns.map fun n => .done (.ok n)) :
    running.filterMap Running.result? = ns.map .ok := by
  have hresults := congrArg (List.filterMap id) (rests_eq_iff_results_eq.1 h)
  simpa [List.filterMap_map, Function.comp_def] using hresults

theorem Serial.inStep (h : Serial (catchUp version r) s t u as) (hk : s.log.Keeps r.key i j)
    (hread : r.read i = .ok a) : ∃ xs, InStep r j a s xs := by
  have hlog := h.log_eq
  rw [hlog] at hk
  obtain ⟨k, hk₁, hk₂⟩ := hk.append
  -- the complete passes walk first
  obtain ⟨xs, hx, hsum⟩ := walked_runs (R := fun a e b => e.Leads a b) h.runs hk₁ hread
    (fun a e b h => h) fun t' a b e _ hn => (yields_next? hn).leads
  have hread₁ := hx.read_eq (fun a e b h => h) hk₁ hread
  -- then the one goes on that holds up the others
  obtain ⟨ys, hy, hnil⟩ : ∃ ys, Walking (fun a e b => e.Leads a b) r u (lastOf a xs) ys ∧
      (u = [] → ys = []) := by
    cases h.held with
    | nobody _ => exact ⟨[], (walked_nil (by simp)).walking, fun _ => rfl⟩
    | @program n u rest _ hreach _ =>
      have hk₃ : Trace.Keeps r.key k u j := by
        cases hk₂ with
        | other _ _ hk₂ => exact hk₂
      obtain ⟨ys, hy⟩ := walking_catchUp (R := fun a e b => e.Leads a b) hreach hk₃ hread₁
        fun t' a b e _ hn => (yields_next? hn).leads
      exact ⟨ys, ⟨hy.follows, hy.stored_eq, hy.reported_eq⟩, fun hu => nomatch hu⟩
  have hw := hx.append_walking hy
  rw [← hlog] at hw hk
  refine ⟨xs ++ ys, ?_⟩
  obtain ⟨vs, zs, hvs, hzs, hr⟩ := hw.reported_eq
  exact
    { leads := hw.follows
      nonce_eq := hw.follows.nonce_lastOf
      stored_eq := hw.stored_eq
      read_eq := read_of_stored hw.follows hw.stored_eq hk hread
      told_prefix := by
        rw [hr, hvs, List.map_append]
        exact List.prefix_append _ _
      told_length := by
        rw [hr, hvs, List.length_append, List.length_map]
        omega
      told_eq := by
        intro hfree
        have hu := h.held.eq_nil_of_free hfree
        rw [hlog, hu, hnil hu, List.append_nil, List.append_nil, hx.reported_eq]
      count_eq := by
        intro ns hns
        have hdone : ∀ y ∈ s.running, ∃ b, y.rest = .done b := by
          intro y hy
          have hmem : y.rest ∈ ns.map fun n => Program.done (.ok n) := by
            rw [← hns]
            exact List.mem_map_of_mem hy
          obtain ⟨n, -, hn⟩ := List.mem_map.1 hmem
          exact ⟨.ok n, hn.symm⟩
        have hresults := h.results
        rw [results_of_done hns] at hresults
        have hok : ∀ x ∈ as, ∃ n, x = .ok n := by
          intro x hx
          obtain ⟨n, -, hn⟩ := List.mem_map.1 (hresults.mem_iff.2 hx)
          exact ⟨n, hn.symm⟩
        rw [hnil (h.held.eq_nil hdone), List.append_nil, hsum hok,
          ← (hresults.filterMap Except.toOption).sum_nat]
        simp [List.filterMap_map, Function.comp_def, Except.toOption] }

/-- Passes that find the record of another account store nothing and tell nothing. -/
theorem runs_foreign {f : Failure} (h : Program.Runs (pass version r).run t as)
    (hk : t.Keeps r.key i j) (hread : r.read i = .error f) :
    t.stored r.key = [] ∧ t.reported = [] ∧ j = i := by
  induction h with
  | nil =>
    cases hk with
    | nil _ => exact ⟨rfl, rfl, rfl⟩
  | cons h₁ _ ih =>
    obtain ⟨t', rfl, h'⟩ := Action.yields_exclusive_iff.1 h₁
    obtain ⟨k, hk₁, hk₂⟩ := hk.append
    obtain ⟨k', hk', -⟩ : ∃ k', Trace.Keeps r.key i t' k' ∧
        Trace.Keeps r.key k' [⟨.release, ()⟩] k := by
      cases hk₁ with
      | other _ _ hk₁ => exact hk₁.append
    obtain ⟨hs, hr⟩ := reaches_foreign h' hk' hread
    have hstored : Trace.stored r.key (⟨.acquire, ()⟩ :: (t' ++ [⟨.release, ()⟩])) = [] := by
      show Trace.stored r.key (t' ++ [⟨.release, ()⟩]) = []
      rw [Trace.stored_append, hs]
      rfl
    have hreported : Trace.reported (⟨.acquire, ()⟩ :: (t' ++ [⟨.release, ()⟩])) = [] := by
      show Trace.reported (t' ++ [⟨.release, ()⟩]) = []
      rw [Trace.reported_append, hr]
      rfl
    have hki : k = i := by
      rw [hk₁.eq, hstored]
      rfl
    rw [hki] at hk₂
    obtain ⟨hs', hr', hj⟩ := ih hk₂
    exact ⟨by rw [Trace.stored_append, hstored, hs']; rfl,
      by rw [Trace.reported_append, hreported, hr']; rfl, hj⟩

theorem Serial.foreign {f : Failure} (h : Serial (catchUp version r) s t u as)
    (hk : s.log.Keeps r.key i j) (hread : r.read i = .error f) :
    s.log.stored r.key = [] ∧ s.log.reported = [] := by
  rw [h.log_eq] at hk ⊢
  obtain ⟨k, hk₁, hk₂⟩ := hk.append
  obtain ⟨hs, hr, rfl⟩ := runs_foreign h.runs hk₁ hread
  rw [Trace.stored_append, Trace.reported_append, hs, hr]
  cases h.held with
  | nobody _ => exact ⟨rfl, rfl⟩
  | program n _ hreach _ =>
    cases hk₂ with
    | other _ _ hk₂ =>
      obtain ⟨hs', hr'⟩ := reaches_foreign hreach hk₂ hread
      exact ⟨hs', hr'⟩

/-! ## Passes in a world -/

theorem Scene.Course.keeps {α : Type} {env : Environment surroundings σ} {move : σ → σ → Prop}
    {p : Program surroundings α} {s₀ : σ} {s : Scene σ α} {key : String} {item : σ → Option Bytes}
    (h : Scene.Course env move p s₀ s) (hk : Keeps env key item)
    (hm : ∀ s s', move s s' → item s' = item s) : s.log.Keeps key (item s₀) (item s.state) := by
  induction h with
  | start => exact .nil _
  | @move s s' _ hmove ih =>
    cases hmove with
    | start => exact ih
    | turn k =>
      rcases Scene.turn_cases env k s with he | ⟨holds, q, next, -, -, he⟩
      · rw [he]
        exact ih
      · rw [he]
        exact ih.concat (hk.cons (.nil _))
    | other ho =>
      rw [← hm _ _ ho] at ih
      exact ih

/-- A pass takes the lock first and gives it back last. -/
theorem confined_between :
    (catchUp version r).run.Confined fun q : Query => q ≠ .acquire ∧ q ≠ .release := by
  refine confined_catchUp ?_ ⟨nofun, nofun⟩ (fun _ => ⟨nofun, nofun⟩) fun _ => ⟨nofun, nofun⟩
  intro q hq
  cases q <;> first | exact hq.elim | exact ⟨nofun, nofun⟩

/-- Others may do anything in the world but change the item stored under the key. -/
def Simulation.World.Spares (storage : Nat) (key : String) (w w' : World) : Prop :=
  w'.storages storage key = w.storages storage key

namespace History

variable {c storage : Nat} {w₀ : World} {s : Scene World (Except Failure Nat)}

/-- Passes over one account are started at any times, each of them waits for its turn at every
question, and others use the ledger meanwhile. At any time what is stored and what has been told are
one walk from the account stored at first, and a move makes it one step longer at most. Passes that
find the record of another account store nothing and tell nothing. -/
theorem concurrent_passes (version : ContractVersion) (r : Register)
    (h : Scene.Course (World.answer c storage) (World.Spares storage r.key) (pass version r).run w₀ s) :
    (∀ a, r.read (w₀.storages storage r.key) = .ok a →
      ∃ xs, InStep r (s.state.storages storage r.key) a s xs ∧
        ∀ s', Scene.Moves (World.answer c storage) (World.Spares storage r.key) (pass version r).run s s' →
          ∃ ys, InStep r (s'.state.storages storage r.key) a s' ys ∧
            xs.length ≤ ys.length ∧ ys.length ≤ xs.length + 1) ∧
    ∀ f, r.read (w₀.storages storage r.key) = .error f →
      s.log.stored r.key = [] ∧ s.log.reported = [] := by
  have hkeeps := World.keeps_answer c storage r.key
  have hspares : ∀ w w' : World, World.Spares storage r.key w w' →
      w'.storages storage r.key = w.storages storage r.key := fun w w' hw => hw
  have hinStep : ∀ {s : Scene World (Except Failure Nat)} {a : Account},
      Scene.Course (World.answer c storage) (World.Spares storage r.key) (pass version r).run w₀ s →
      r.read (w₀.storages storage r.key) = .ok a →
      ∃ xs, InStep r (s.state.storages storage r.key) a s xs := by
    intro s a h hread
    obtain ⟨t, u, as, hserial⟩ := h.serial confined_between
    exact hserial.inStep (h.keeps hkeeps hspares) hread
  have hlength : ∀ {s : Scene World (Except Failure Nat)} {item : Option Bytes} {a : Account}
      {xs : List Step}, InStep r item a s xs → xs.length = (s.log.stored r.key).length := by
    intro s item a xs hxs
    rw [hxs.stored_eq, List.length_map]
  refine ⟨fun a hread => ?_, fun f hread => ?_⟩
  · obtain ⟨xs, hxs⟩ := hinStep h hread
    refine ⟨xs, hxs, fun s' hmove => ?_⟩
    obtain ⟨ys, hys⟩ := hinStep (h.move hmove) hread
    refine ⟨ys, hys, ?_⟩
    rw [hlength hxs, hlength hys]
    -- a move asks one question at most, so it stores one item at most
    rcases hmove.log_eq with hlog | ⟨x, hlog⟩
    · rw [hlog]
      omega
    · have hone : (Trace.stored r.key [x]).length ≤ 1 := List.length_filterMap_le _ _
      rw [hlog, Trace.stored_append, List.length_append]
      omega
  · obtain ⟨t, u, as, hserial⟩ := h.serial confined_between
    exact hserial.foreign (h.keeps hkeeps hspares) hread

/-- The register of the account 7. -/
def register7 : Register := ⟨"accountState", 7, 0⟩

/-- Two passes of the account 7, which has been opened. The first one has begun to walk, and the second
one waits. -/
def begun : Scene World (Except Failure Nat) :=
  Scene.play (World.answer 0 0) [0, 1, 0, 1, 0]
    { state := ((World.new .direct 1).register 7 100).2
      running := [⟨false, (pass .supported register7).run⟩, ⟨false, (pass .supported register7).run⟩]
      log := [] }

/-- Another account has been opened meanwhile. -/
def interrupted : Scene World (Except Failure Nat) :=
  { begun with state := (begun.state.register 8 5).2 }

/-- Both passes have gone on to their ends. -/
def resumed : Scene World (Except Failure Nat) :=
  interrupted.play (World.answer 0 0) (List.replicate 40 [1, 0]).flatten

theorem course_resumed : Scene.Course (World.answer 0 0) (World.Spares 0 register7.key)
    (pass .supported register7).run ((World.new .direct 1).register 7 100).2 resumed := by
  have hstart : Scene.Course (World.answer 0 0) (World.Spares 0 register7.key)
      (pass .supported register7).run ((World.new .direct 1).register 7 100).2
      ⟨((World.new .direct 1).register 7 100).2, [], []⟩ := .start
  have hbegun : Scene.Course (World.answer 0 0) (World.Spares 0 register7.key)
      (pass .supported register7).run ((World.new .direct 1).register 7 100).2 begun :=
    ((hstart.move .start).move .start).play [0, 1, 0, 1, 0]
  have hspares : World.Spares 0 register7.key begun.state (begun.state.register 8 5).2 := by
    unfold World.Spares World.register
    dsimp only
    split <;> rfl
  exact (hbegun.move (.other hspares)).play _

/-- The passes have ended, the first one after a step and the second one after none, and the owner has
been told one transaction. -/
theorem ended_resumed : resumed.IsFree ∧
    resumed.running.map Running.result? = [some (.ok 1), some (.ok 0)] ∧
      resumed.log.reported.map (fun x => (x.movement, x.amount)) = [(.opening, 100)] := by
  decide +kernel

/-- However the two passes took turns, they went through one walk. The first one has taken its only
step, which opens the account with 100, and has returned 1. The second one has returned 0. One account
has been stored, and one transaction has been reported. -/
theorem concurrent_passes_resumed :
    resumed.running.map Running.result? = [some (.ok 1), some (.ok 0)] ∧
    ∃ x : Step, InStep register7 (resumed.state.storages 0 register7.key) (.unopened 7) resumed [x] ∧
      x.event.movement = .opening ∧ x.event.amount = 100 ∧
      resumed.log.stored register7.key = [register7.item x.account] ∧
      resumed.log.reported = [x.event.transaction] ∧
      x.account.nonce.toNat = 1 ∧ x.account.balance = 100 := by
  obtain ⟨hfree, hresults, htold⟩ := ended_resumed
  have hpasses := concurrent_passes .supported register7 course_resumed
  obtain ⟨xs, hxs, -⟩ := hpasses.1 (.unopened 7) rfl
  -- the results say how many steps there are
  have hlength : xs.length = 1 := hxs.count_eq [1, 0] (rests_eq_iff_results_eq.2 hresults)
  obtain ⟨x, rfl⟩ := List.length_eq_one_iff.1 hlength
  have hreported := hxs.told_eq hfree
  rw [hreported] at htold
  obtain ⟨hmovement, hamount⟩ := Prod.mk.inj (List.cons.inj htold).1
  have hmovement : x.event.movement = .opening := hmovement
  have hamount : x.event.amount = 100 := hamount
  have hbalance := hxs.leads.1.balance_eq
  rw [hmovement, hamount] at hbalance
  exact ⟨hresults, x, hxs, hmovement, hamount, hxs.stored_eq, hreported, hxs.nonce_eq,
    (Option.some.inj hbalance).symm⟩

end History

end ShieldedWallet
