import ShieldedWallet.Proofs.Simulation.Replay
import ShieldedWallet.Proofs.Simulation.Settled

/-!
# The agreement of all wallets

All wallets of an account agree on its chain, however their orders interleave, and the chain consists
of what the ledger has accepted from them. A wallet that is left alone for a pass gets to the end of the
chain.
-/

namespace ShieldedWallet

open History (Step Follows lastOf)

namespace Simulation

variable {o : Owner} {N : Nat} {parties : List Party} {p : Party} {w w₀ : World}
  {xs ys : List Step} {k : Nat}

/-! ## Catching up -/

/-- A pass that is not interrupted brings the account to the end of the chain. -/
theorem Settled.sync (h : Settled o N parties w xs) (hp : p ∈ parties) (hd : Distinct N o.id)
    (hN : w.ledger.blocks.length ≤ N) :
    ∃ k ≤ xs.length,
      (o.register p).read (w.storages p.storage p.storageKey) = .ok (stateAt o.id xs k) ∧
      ((o.wallet p).sync.run.run (World.answer p.number p.storage) w).1 = .ok (xs.length - k) ∧
      (o.register p).read (((o.wallet p).sync.run.run (World.answer p.number p.storage) w).2.storages
        p.storage p.storageKey) = .ok (stateAt o.id xs xs.length) := by
  obtain ⟨k, hk, hread⟩ := h.stored p hp
  have hentire := h.chain.entire hd hN k
  obtain ⟨w', -, hpass⟩ := hentire.pass (r := o.register p) (World.serves_answer p.number p.storage)
    (World.steady_answer p.number p.storage) (World.keeps_answer p.number p.storage p.storageKey)
    h.plain hread
  obtain ⟨hrun, -⟩ := Action.run_reporting_ok .syncing .sync hpass.run_eq
  have hlast : lastOf (stateAt o.id xs k) (xs.drop k) = stateAt o.id xs xs.length := by
    rw [stateAt, ← History.lastOf_append, List.take_append_drop, stateAt_length]
  have hsync : (o.wallet p).sync.run.run (World.answer p.number p.storage) w =
      (.ok (xs.drop k).length, w') := hrun
  refine ⟨k, hk, hread, ?_, ?_⟩
  · rw [hsync, List.length_drop]
  · rw [hsync, ← hlast]
    exact hpass.read_eq

/-! ## Agreement -/

/-- What holds at every site: the parties store states of the chain, the chain consists of what was
accepted, and everything stands that the orders given so far rest on. -/
structure Site.Sound (o : Owner) (N : Nat) (parties : List Party) (s : Site) (xs : List Step) :
    Prop where
  settled : Settled o N parties s.world xs
  accepted_eq : s.accepted = xs.map fun x => x.event.txHash
  tasks : ∀ x ∈ s.tasks, x.party ∈ parties ∧ x.Sound o s.world.ledger xs

/-- Nothing of the account is in the world. -/
structure Untouched (o : Owner) (N : Nat) (parties : List Party) (w : World) : Prop where
  plain : w.Plain
  version_eq : w.ledger.version = o.version
  blocks : ∀ b ∈ w.ledger.blocks, ¬ b.IsOf N o.id
  stored : ∀ p ∈ parties, w.storages p.storage p.storageKey = none

variable {s s' : Site}

theorem Untouched.sound (h : Untouched o N parties w) : Site.Sound o N parties ⟨w, [], []⟩ [] where
  settled := {
    plain := h.plain
    chain := {
      version_eq := h.version_eq
      follows := trivial
      blocks_eq := by
        classical
        exact List.filter_eq_nil_iff.2 fun b hb => by simpa using h.blocks b hb }
    stored p hp := by
      refine ⟨0, Nat.le_refl 0, ?_⟩
      rw [h.stored p hp]
      exact Register.read_none }
  accepted_eq := rfl
  tasks x hx := absurd hx List.not_mem_nil

/-- A move makes the chain longer at most. -/
theorem Site.Sound.move (h : Site.Sound o N parties s xs) (hm : Moves o N parties s s')
    (hd : Distinct N o.id) (hN' : N < UInt64.size) (hN : s'.world.ledger.blocks.length ≤ N)
    (hE : s'.world.ledger.encoded.length ≤ UInt64.size) :
    ∃ ys, Site.Sound o N parties s' (xs ++ ys) := by
  obtain ⟨-, hg⟩ := hm.grows h.settled.plain
  cases hm with
  | @start w ts hashes p order hp ho =>
    refine ⟨[], ?_⟩
    rw [List.append_nil]
    refine ⟨h.settled, h.accepted_eq, fun x hx => ?_⟩
    rcases List.mem_append.1 hx with hx | hx
    · exact h.tasks x hx
    · obtain rfl := List.mem_singleton.1 hx
      refine ⟨hp, .refl _, fun y hy => absurd hy List.not_mem_nil, ?_⟩
      -- a call that is given to a wallet has been prepared by a task that is sound
      cases order with
      | send c sender =>
        obtain ⟨x, hx, hrest⟩ := ho
        exact (h.tasks x hx).2.prepared hrest
      | relay c =>
        obtain ⟨x, hx, hrest⟩ := ho
        exact (h.tasks x hx).2.prepared hrest
      | _ => trivial
  | @answer w w' ts ts' hashes p order t q next r ha =>
    obtain ⟨hp, hx⟩ := h.tasks ⟨p, order, t, .ask q next⟩ (by simp)
    obtain ⟨ys, hsettled, haccepted⟩ := h.settled.answer hx rfl ha hd hN' hN hE
    have hhashes : hashes = xs.map fun x => x.event.txHash := h.accepted_eq
    refine ⟨ys, hsettled, ?_, fun x' hx' => ?_⟩
    · rw [hhashes, haccepted, List.map_append]
    · -- the task that was answered knows one exchange more, the others know what they knew
      by_cases hnew : x' = ⟨p, order, t ++ [⟨q, r⟩], next r⟩
      · rw [hnew]
        refine ⟨hp, hx.reaches.trans (.ask (.refl _)), fun y hy => ?_, (hx.mono hg).given⟩
        rcases List.mem_append.1 hy with hy | hy
        · exact (hx.stands y hy).mono hg
        · obtain rfl := List.mem_singleton.1 hy
          exact (h.settled.stands hp ha hE).mono (.refl _)
      · have hold : x' ∈ ts ++ ⟨p, order, t, .ask q next⟩ :: ts' := by
          simp only [List.mem_append, List.mem_cons, hnew, false_or] at hx' ⊢
          exact hx'.imp_right .inr
        exact ⟨(h.tasks x' hold).1, (h.tasks x' hold).2.mono hg⟩
  | @other w ts hashes x hv hb =>
    refine ⟨[], ?_⟩
    rw [List.append_nil]
    refine ⟨h.settled.other hv hb, h.accepted_eq, fun x hx => ⟨(h.tasks x hx).1, ?_⟩⟩
    rw [← List.append_nil xs]
    exact (h.tasks x hx).2.mono hg

theorem Course.plain (h : Course o N parties w₀ s) (h₀ : w₀.Plain) : s.world.Plain := by
  induction h with
  | start => exact h₀
  | move _ hm ih => exact (hm.grows ih).1

theorem Course.sound (h : Course o N parties w₀ s) (h₀ : Untouched o N parties w₀)
    (hd : Distinct N o.id) (hN' : N < UInt64.size) (hN : s.world.ledger.blocks.length ≤ N)
    (hE : s.world.ledger.encoded.length ≤ UInt64.size) : ∃ xs, Site.Sound o N parties s xs := by
  induction h with
  | start => exact ⟨[], h₀.sound⟩
  | move hs hm ih =>
    obtain ⟨-, hg⟩ := hm.grows (hs.plain h₀.plain)
    obtain ⟨xs, hx⟩ := ih (Nat.le_trans hg.blocks.length_le hN) (Nat.le_trans hg.encoded hE)
    obtain ⟨ys, hy⟩ := hx.move hm hd hN' hN hE
    exact ⟨xs ++ ys, hy⟩

/-- The parties agree with the ledger on the steps of the account. -/
structure Agreement (o : Owner) (N : Nat) (parties : List Party) (s : Site) (xs : List Step) :
    Prop where
  /-- The steps are a chain that starts with the unopened account. -/
  leads : Follows (fun a e b => e.Leads a b) (.unopened o.id) xs
  /-- Their events are those of the blocks of the account, in the order of the blocks. -/
  events_eq : (s.world.ledger.blocksOf N o.id).flatMap Block.events = xs.map Step.event
  /-- They are what the ledger has accepted from the parties. -/
  accepted_eq : s.accepted = xs.map fun x => x.event.txHash
  /-- They are what every party reads off the ledger. -/
  history_eq : ∀ p ∈ parties,
    ((o.wallet p).history.run (World.answer p.number p.storage) s.world).1 =
      (xs.map fun x => x.event.transaction, none)
  /-- Every party stores the account after some of the steps, and one more pass takes the others. -/
  synced : ∀ p ∈ parties, ∃ k ≤ xs.length,
    (o.register p).read (s.world.storages p.storage p.storageKey) = .ok (stateAt o.id xs k) ∧
    ((o.wallet p).sync.run.run (World.answer p.number p.storage) s.world).1 =
      .ok (xs.length - k) ∧
    (o.register p).read (((o.wallet p).sync.run.run (World.answer p.number p.storage) s.world).2.storages
      p.storage p.storageKey) = .ok (stateAt o.id xs xs.length)

/-- Whatever orders the wallets of an account carry out, and however their questions interleave with
each other and with what others do, they agree with the ledger on the account, if its search hashes
differ. There may be as many blocks and encoded calls as machine words can number. -/
theorem wallets_agree (h : Course o N parties w₀ s) (h₀ : Untouched o N parties w₀)
    (hd : Distinct N o.id) (hN' : N < UInt64.size) (hN : s.world.ledger.blocks.length ≤ N)
    (hE : s.world.ledger.encoded.length ≤ UInt64.size) : ∃ xs, Agreement o N parties s xs := by
  obtain ⟨xs, hx⟩ := h.sound h₀ hd hN' hN hE
  have hchain := hx.settled.chain
  refine ⟨xs, hchain.leads, hchain.events_eq, hx.accepted_eq, fun p hp => ?_, fun p hp => ?_⟩
  · rw [(World.serves_answer p.number p.storage).run_history_eq hx.settled.plain]
    exact eval_replay hchain.follows (hchain.eval_last hd hN _)
  · exact hx.settled.sync hp hd hN

/-- The owner of an account. -/
def owner7 : Owner := ⟨Vector.replicate 32 7, 1, .supported⟩

/-- A wallet of the account that acts. -/
def acting : Party := ⟨0, 0, "accountState", none⟩

/-- A wallet of the account that looks on. -/
def watching : Party := ⟨1, 1, "accountState", none⟩

/-- What the acting wallet does to shield 100. -/
def shielding : Program surroundings Outcome :=
  ((Order.shield 100 (Vector.replicate 20 1)).program (owner7.wallet acting)).run

/-- One wallet has shielded 100, and the other one has done nothing. -/
def shielded7 : Site where
  world := (shielding.run (World.answer 0 0) (World.new .direct 1)).2
  tasks := [⟨acting, .shield 100 (Vector.replicate 20 1),
    shielding.trace (World.answer 0 0) (World.new .direct 1),
    .done (shielding.run (World.answer 0 0) (World.new .direct 1)).1⟩]
  accepted := (shielding.trace (World.answer 0 0) (World.new .direct 1)).flatMap Exchange.accepted

theorem course_shielded7 : Course owner7 1 [acting, watching] (World.new .direct 1) shielded7 := by
  have hready : IsReady [] (.shield 100 (Vector.replicate 20 1)) := trivial
  have hstart : Course owner7 1 [acting, watching] (World.new .direct 1)
    ⟨World.new .direct 1, [], []⟩ := .start
  have hcourse := hstart.carryOut List.mem_cons_self hready
  rw [List.nil_append, List.nil_append] at hcourse
  exact hcourse

/-- What one wallet has shielded is the one transaction of the account. -/
theorem wallets_agree_shielded7 :
    ∃ xs, Agreement owner7 1 [acting, watching] shielded7 xs ∧ xs.length = 1 := by
  have huntouched : Untouched owner7 1 [acting, watching] (World.new .direct 1) :=
    ⟨⟨⟨rfl, rfl⟩, rfl, rfl⟩, rfl, by simp [World.new], by simp [World.new]⟩
  obtain ⟨hblocks, hencoded, haccepted⟩ : shielded7.world.ledger.blocks.length ≤ 1 ∧
      shielded7.world.ledger.encoded.length ≤ UInt64.size ∧ shielded7.accepted.length = 1 := by
    decide +kernel
  have hdistinct : Distinct 1 owner7.id := by decide +kernel
  obtain ⟨xs, hx⟩ := wallets_agree course_shielded7 huntouched hdistinct (by decide) hblocks hencoded
  refine ⟨xs, hx, ?_⟩
  rwa [hx.accepted_eq, List.length_map] at haccepted

end Simulation

end ShieldedWallet
