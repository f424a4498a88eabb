import ShieldedWallet.Proofs.History.Untrusted
import ShieldedWallet.Proofs.Simulation.Plain
import ShieldedWallet.Proofs.Wallet.Orders

/-!
# Accounts kept from a ledger

The leaves of the note tree stay where they are, also on a ledger whose events are repeated, and every
event says where its note is. So an account that passes have kept knows the place of its note: the note
is the one that belongs to the account, and it is the leaf that the account points to.
-/

namespace ShieldedWallet

open History (Step Follows lastOf)
open Program (Amid)

namespace Simulation

namespace Ledger

variable {l l' : Ledger} {m : Movement} {amount : UInt256} {note key : Scalar}
  {destination : Option Address} {fee : Option UInt256} {hash : Hash256}

/-! ## Leaves and events -/

/-- What an operation does to the leaves and the blocks: it adds leaves, or one leaf together with the
block of its event. -/
inductive Alters (l l' : Ledger) : Prop
  | leaves (hl : l.leaves <+: l'.leaves) (hb : l'.blocks = l.blocks)
  | event {key : Scalar} {e : NoteEvent} (hl : l'.leaves = l.leaves ++ [e.note])
      (hb : l'.blocks = l.blocks ++ [⟨key, [e]⟩]) (hi : e.noteIndex = .ofNat l.leaves.length)

theorem Alters.prefix_leaves (h : l.Alters l') : l.leaves <+: l'.leaves := by
  cases h with
  | leaves hl hb => exact hl
  | event hl hb hi =>
    rw [hl]
    exact List.prefix_append _ _

theorem alters_append (h : l.append m amount note key destination fee = .ok (hash, l')) :
    l.Alters l' := by
  obtain ⟨-, -, rfl⟩ := append_eq_ok h
  exact .event (e := l.nextEvent m amount note destination fee) rfl rfl rfl

theorem leaves_answer (l : Ledger) (q : ContractQuery) : (l.answer q).2.leaves = l.leaves := by
  cases q with
  | path index =>
    simp only [answer, path?]
    cases l.leaves[index.toNat]? <;> rfl
  | encode m version sender c =>
    simp only [answer]
    cases he : ({ l with calls := l.calls + 1 } : Ledger).encode m version c with
    | error e => rfl
    | ok r =>
      obtain ⟨data, l'⟩ := r
      obtain ⟨-, c', -, -, rfl⟩ := encode_eq_ok he
      rfl
  | rate k => cases k <;> rfl
  | _ => rfl

theorem alters_apply (o : Operation) (l : Ledger) : l.Alters (o.apply l) := by
  cases o with
  | ask q =>
    have hleaves := leaves_answer l q
    have hblocks := (unchanged_answer l q).1
    exact .leaves (hleaves ▸ List.prefix_refl _) hblocks
  | execute tx =>
    show l.Alters (l.execute tx).2
    rcases execute_cases l tx with ⟨_, -, he | ⟨n, he⟩⟩ | ⟨n, m, c, hash, l', -, -, hp, he⟩
    · rw [he]
      exact .leaves (List.prefix_refl _) rfl
    · rw [he]
      exact .leaves (List.prefix_refl _) rfl
    · rw [he]
      have happend := perform_eq_ok hp
      cases alters_append happend with
      | leaves hl hb => exact .leaves hl hb
      | event hl hb hi => exact .event hl hb hi
  | register id amount =>
    simp only [Operation.apply, register]
    cases ha : l.append .opening amount ((registered id amount).note?.getD 0) (Simulation.hash [id])
        none none with
    | error reason => exact .leaves (List.prefix_refl _) rfl
    | ok r => exact alters_append ha
  | pushLeaf leaf => exact .leaves (List.prefix_append _ _) rfl
  | setRates deposit withdrawal => exact .leaves (List.prefix_refl _) rfl
  | setVersion version => exact .leaves (List.prefix_refl _) rfl

/-- Every event says where its note is among the leaves. -/
def Indexed (l : Ledger) : Prop :=
  ∀ b ∈ l.blocks, ∀ e ∈ b.events, l.leaves[e.noteIndex.toNat]? = some e.note

theorem getElem?_of_prefix {α : Type} {xs ys : List α} {i : Nat} {x : α} (h : xs <+: ys)
    (hx : xs[i]? = some x) : ys[i]? = some x := by
  obtain ⟨zs, rfl⟩ := h
  have hi := (List.getElem?_eq_some_iff.1 hx).1
  rwa [List.getElem?_append_left hi]

theorem Indexed.alters (h : l.Indexed) (ha : l.Alters l') (hL : l'.leaves.length ≤ UInt64.size) :
    l'.Indexed := by
  intro b hb e he
  have hprefix := ha.prefix_leaves
  cases ha with
  | leaves hl hblocks =>
    rw [hblocks] at hb
    exact getElem?_of_prefix hprefix (h b hb e he)
  | @event key e' hl hblocks hi =>
    rw [hblocks] at hb
    rcases List.mem_append.1 hb with hb | hb
    · exact getElem?_of_prefix hprefix (h b hb e he)
    · obtain rfl := List.mem_singleton.1 hb
      obtain rfl := List.mem_singleton.1 he
      rw [hl, List.length_append, List.length_singleton] at hL
      have hindex : e.noteIndex.toNat = l.leaves.length := by
        rw [hi]
        exact UInt64.toNat_ofNat_of_lt' (by omega)
      rw [hl, hindex]
      simp

theorem Indexed.repeatLastEvent (h : l.Indexed) : l.repeatLastEvent.Indexed := by
  intro b hb e he
  -- a repeated event is one of the events that the block had before
  rcases List.getElem_of_mem hb with ⟨i, hi, rfl⟩
  simp only [Ledger.repeatLastEvent, List.length_modify] at hi
  simp only [Ledger.repeatLastEvent, List.getElem_modify] at he
  split at he
  · simp only [Block.repeated, List.mem_append, Option.mem_toList] at he
    rcases he with he | he
    · exact h _ (List.getElem_mem hi) e he
    · exact h _ (List.getElem_mem hi) e (List.mem_of_getLast? he)
  · exact h _ (List.getElem_mem hi) e he

/-- The ledger has become `l'` by operations, and by events that were repeated. -/
inductive Evolves (l : Ledger) : Ledger → Prop
  | refl : Evolves l l
  | apply {l' : Ledger} (h : Evolves l l') (o : Operation) : Evolves l (o.apply l')
  | repeatLastEvent {l' : Ledger} (h : Evolves l l') : Evolves l l'.repeatLastEvent

theorem Evolves.trans {l'' : Ledger} (h : l.Evolves l') (h' : l'.Evolves l'') : l.Evolves l'' := by
  induction h' with
  | refl => exact h
  | apply _ o ih => exact ih.apply o
  | repeatLastEvent _ ih => exact ih.repeatLastEvent

theorem Evolves.leaves (h : l.Evolves l') : l.leaves <+: l'.leaves := by
  induction h with
  | refl => exact List.prefix_refl _
  | apply _ o ih => exact ih.trans (alters_apply o _).prefix_leaves
  | repeatLastEvent _ ih => exact ih

theorem Evolves.indexed (h : l.Evolves l') (hl : l.Indexed) (hL : l'.leaves.length ≤ UInt64.size) :
    l'.Indexed := by
  induction h with
  | refl => exact hl
  | @apply l' _ o ih =>
    have halters := alters_apply o l'
    have hbefore := Nat.le_trans halters.prefix_leaves.length_le hL
    exact (ih hbefore).alters halters hL
  | repeatLastEvent _ ih => exact (ih hL).repeatLastEvent

theorem evolves_relay (r : RelayRequest) (l : Ledger) : l.Evolves (World.relay r l).2 := by
  have hasked : l.Evolves (l.answer (relayedQuery r)).2 := Evolves.refl.apply (.ask (relayedQuery r))
  rcases relay_cases r l with ⟨e, hr⟩ | ⟨tx, -, hr⟩
  · rw [hr]
    exact hasked
  · rw [hr]
    exact hasked.apply (.execute tx)

theorem Indexed.of_mem_events (h : l.Indexed) {block : UInt64} {e : NoteEvent}
    (he : e ∈ l.events block) : l.leaves[e.noteIndex.toNat]? = some e.note := by
  obtain ⟨b, hb, he⟩ := exists_block_of_mem_events he
  exact h b hb e he

end Ledger

namespace World

variable {c storage : Nat} {w w' : World}

/-- Whatever a wallet asks, the ledger evolves. -/
theorem Undisturbed.evolves_answer (h : w.Undisturbed) (q : Query) :
    w.ledger.Evolves (World.answer c storage q w).2.ledger := by
  rw [h.answer_eq]
  cases q with
  | prover q =>
    simp only [answerTrue]
    split
    · exact .refl
    · simp only [ledger_askProver]
      exact .refl
  | contract q =>
    simp only [answerTrue]
    split
    · exact .refl
    · exact Ledger.Evolves.refl.apply (.ask q)
  | relayer q =>
    cases q with
    | submit r => exact Ledger.evolves_relay r w.ledger
    | _ => exact .refl
  | submit tx =>
    obtain ⟨sent, he⟩ := execute_eq w tx
    rw [answerTrue, he]
    exact Ledger.Evolves.refl.apply (.execute tx)
  | _ => exact .refl

/-- Others use the world and leave the stored item alone. -/
structure Moves (storage : Nat) (key : String) (w w' : World) : Prop where
  plain : w'.Plain
  item_eq : w'.storages storage key = w.storages storage key
  evolves : w.ledger.Evolves w'.ledger

/-- A program that stores nothing leaves the stored item alone. -/
theorem Plain.moves_run {α : Type} {p : Program surroundings α} {key : String} (hw : w.Plain)
    (hp : p.Confined Query.StoresNothing) :
    Moves storage key w (p.run (World.answer c storage) w).2 := by
  induction p generalizing w with
  | done a => exact ⟨hw, rfl, .refl⟩
  | ask q next ih =>
    let w₁ := (World.answer c storage q w).2
    have hw₁ : w₁.Plain := hw.answer q
    have hmoves := ih (World.answer c storage q w).1 hw₁ (hp.tail _)
    have hitem : w₁.storages = w.storages := storages_answer w hp.head
    refine ⟨hmoves.plain, ?_, (hw.evolves_answer q).trans hmoves.evolves⟩
    rw [Program.run_ask, hmoves.item_eq, hitem]

/-- Amid moves of others everything that is looked up is read from a ledger on the way. -/
theorem Plain.amid {α : Type} {p : Program surroundings α} {key : String} {t : Trace} {x : α}
    (hw : w.Plain) (h : Amid (World.answer c storage) (Moves storage key) p w t x w') :
    w'.Plain ∧ w.ledger.Evolves w'.ledger ∧ ∀ y ∈ t, y.query.IsLookup →
      ∃ l, w.ledger.Evolves l ∧ l.Evolves w'.ledger ∧ y.answer = reading simulated l y.query :=
  (serves_answer c storage).amid_rel (fun _ => .refl) (fun _ _ _ hl hl' => hl.trans hl')
    (fun q _ hw => hw.evolves_answer q) (fun _ _ _ hm => ⟨hm.plain, hm.evolves⟩) h hw

end World

/-! ## Kept accounts -/

/-- The account stored under the key of the register has come from passes over a ledger that began
empty. In between, and also meanwhile, anything may happen on the ledger. -/
inductive Kept (c storage : Nat) (version : ContractVersion) (r : Register) : World → Prop
  | start {w : World} (hw : w.Plain) (hl : w.ledger = {})
      (hread : r.read (w.storages storage r.key) = .ok (.unopened r.id)) : Kept c storage version r w
  | move {w w' : World} (h : Kept c storage version r w) (hm : World.Moves storage r.key w w') :
      Kept c storage version r w'
  | pass {w w' : World} {t : Trace} {res : Except Failure Nat} (h : Kept c storage version r w)
      (hpass : Amid (World.answer c storage) (World.Moves storage r.key)
        (History.pass version r).run w t res w') : Kept c storage version r w'

/-- The note of the account is the leaf that the account points to. -/
def Placed (l : Ledger) (a : Account) : Prop :=
  a.isUnopened = true ∨ ∃ i note, a.noteIndex? = some i ∧ a.note? = some note ∧
    l.leaves[i.toNat]? = some note

/-- The stored account is one whose note belongs to it and is on the ledger. -/
structure Standing (storage : Nat) (version : ContractVersion) (r : Register) (w : World)
    (a : Account) : Prop where
  plain : w.Plain
  indexed : w.ledger.Indexed
  read_eq : r.read (w.storages storage r.key) = .ok a
  sound : a.Sound simulated version
  placed : Placed w.ledger a

variable {c storage : Nat} {version : ContractVersion} {r : Register} {w w' : World} {a : Account}

theorem Placed.evolves {l l' : Ledger} (h : Placed l a) (hl : l.Evolves l') : Placed l' a := by
  rcases h with h | ⟨i, note, hi, hnote, hleaf⟩
  · exact .inl h
  · exact .inr ⟨i, note, hi, hnote, Ledger.getElem?_of_prefix hl.leaves hleaf⟩

theorem Standing.move (h : Standing storage version r w a) (hm : World.Moves storage r.key w w')
    (hL : w'.ledger.leaves.length ≤ UInt64.size) : Standing storage version r w' a where
  plain := hm.plain
  indexed := hm.evolves.indexed h.indexed hL
  read_eq := by
    rw [hm.item_eq]
    exact h.read_eq
  sound := h.sound
  placed := h.placed.evolves hm.evolves

/-- A step that a pass finds leads to an account whose note belongs to it and is on the ledger. -/
theorem standing_of_found {t : Trace} {e : NoteEvent} {b : Account} {l : Ledger}
    (h : History.Found version t a e b) (ht : t.AnsweredBy simulated)
    (hes : ∀ block es, (⟨.contract (.events block), .ok es⟩ : Exchange surroundings) ∈ t →
      ∀ e ∈ es, l.leaves[e.noteIndex.toNat]? = some e.note) :
    b.Sound simulated version ∧ Placed l b := by
  have hcert := h.certified ht
  refine ⟨hcert.sound, .inr ⟨e.noteIndex, e.note, hcert.noteIndex_eq, h.leads.note_eq, ?_⟩⟩
  obtain ⟨hash, block, es, -, -, hmem, hsingle⟩ := hcert.single
  exact hes block es hmem e (NoteEvent.matches_of_single hsingle).1

theorem Standing.pass {t : Trace} {res : Except Failure Nat} (h : Standing storage version r w a)
    (hpass : Amid (World.answer c storage) (World.Moves storage r.key)
      (History.pass version r).run w t res w') (hL : w'.ledger.leaves.length ≤ UInt64.size) :
    ∃ b, Standing storage version r w' b := by
  obtain ⟨hw', hevolves, hlook⟩ := h.plain.amid hpass
  have hkeeps := (World.keeps_answer c storage r.key).amid (fun w w' hm => hm.item_eq) hpass
  have hanswered : t.AnsweredBy simulated := by
    intro q x hx
    obtain ⟨l, -, -, ha⟩ := hlook _ hx trivial
    exact ha
  -- the events were read from ledgers on the way, whose leaves are still where they were
  have hes : ∀ block es, (⟨.contract (.events block), .ok es⟩ : Exchange surroundings) ∈ t →
      ∀ e ∈ es, w'.ledger.leaves[e.noteIndex.toNat]? = some e.note := by
    intro block es hmem e he
    obtain ⟨l, hbefore, hafter, ha⟩ := hlook _ hmem trivial
    have hindexed := hbefore.indexed h.indexed (Nat.le_trans hafter.leaves.length_le hL)
    obtain rfl : es = l.events block := Except.ok.inj ha
    exact Ledger.getElem?_of_prefix hafter.leaves (hindexed.of_mem_events he)
  obtain ⟨xs, hx, -⟩ := History.walked_pass
    (R := fun a e b => e.Leads a b ∧ b.Sound simulated version ∧ Placed w'.ledger b)
    hpass.yields hkeeps h.read_eq fun t' a b e ht hn => by
      have hfound := History.yields_next? hn
      exact ⟨hfound.leads, standing_of_found hfound (hanswered.within ht) fun block es hmem =>
        hes block es (ht.subset hmem)⟩
  have hread := hx.read_eq (fun _ _ _ hR => hR.1) hkeeps h.read_eq
  have hstanding := hx.follows.invariant
    (P := fun a => a.Sound simulated version ∧ Placed w'.ledger a) (fun _ _ _ hR _ => hR.2)
    ⟨h.sound, h.placed.evolves hevolves⟩
  exact ⟨_, hw', hevolves.indexed h.indexed hL, hread, hstanding.1, hstanding.2⟩

theorem Kept.plain (h : Kept c storage version r w) : w.Plain := by
  induction h with
  | start hw _ _ => exact hw
  | move _ hm _ => exact hm.plain
  | pass _ hpass ih => exact (ih.amid hpass).1

theorem Kept.standing (h : Kept c storage version r w) (hL : w.ledger.leaves.length ≤ UInt64.size) :
    ∃ a, Standing storage version r w a := by
  induction h with
  | @start w hw hl hread =>
    refine ⟨.unopened r.id, hw, ?_, hread, .inl rfl, .inl rfl⟩
    rw [hl]
    intro b hb
    cases hb
  | move _ hm ih =>
    have hbefore := Nat.le_trans hm.evolves.leaves.length_le hL
    obtain ⟨a, ha⟩ := ih hbefore
    exact ⟨a, ha.move hm hL⟩
  | pass hkept hpass ih =>
    have hbefore := Nat.le_trans (hkept.plain.amid hpass).2.1.leaves.length_le hL
    obtain ⟨a, ha⟩ := ih hbefore
    exact ha.pass hpass hL

theorem Kept.run {α : Type} {p : Program surroundings α} (h : Kept c storage version r w)
    (hp : p.Confined Query.StoresNothing) :
    Kept c storage version r (p.run (World.answer c storage) w).2 :=
  h.move (h.plain.moves_run hp)

/-- Whatever its wallet is ordered to do, a kept account stays one. -/
theorem Kept.order {wallet : Wallet}
    (h : Kept c storage wallet.settings.version wallet.register w) (o : Order) :
    Kept c storage wallet.settings.version wallet.register
      ((o.program wallet).run.run (World.answer c storage) w).2 := by
  by_cases ho : o = .sync
  · -- a pass, after which the owner may be told that it has failed
    obtain rfl := ho
    let pass := (History.pass wallet.settings.version wallet.register).run
    have hpass : Kept c storage wallet.settings.version wallet.register
        (pass.run (World.answer c storage) w).2 :=
      h.pass (Program.amid_run (World.answer c storage) (World.Moves storage wallet.register.key) pass w)
    show Kept c storage wallet.settings.version wallet.register
      (((pass.bind _).bind _).run (World.answer c storage) w).2
    rw [Program.bind_assoc, Program.run_bind]
    refine hpass.run ?_
    cases (pass.run (World.answer c storage) w).1 with
    | ok n => exact Program.confined_done _
    | error e =>
      refine Program.Confined.bind ?_ fun r => ?_
      · exact (Query.confined_program nofun).bind fun _ => Program.confined_done _
      · cases r <;> exact Program.confined_done _
  · exact h.run fun t q hq => (Order.confined_program ho t q hq).storesNothing

end Simulation

end ShieldedWallet
