import ShieldedWallet.Proofs.Simulation.Upgrading

/-!
# Coherence of the ledger

The registered hashes, the blocks, the events and the leaves of a ledger that has begun empty belong
together: every block registers one hash and holds copies of one event, which points to its note among
the leaves. What is there stays there, so nothing is accepted twice.
-/

namespace ShieldedWallet.Simulation

/-- A repeated event is one of the events that the block had before. -/
theorem Block.mem_repeated {b : Block} {e : NoteEvent} (he : e ∈ b.repeated.events) :
    e ∈ b.events := by
  rcases List.mem_append.1 he with he | he
  · exact he
  · exact List.mem_of_getLast? (Option.mem_toList.1 he)

theorem Block.repeated_replicate {b : Block} {k : Nat} {e : NoteEvent}
    (h : b.events = List.replicate (k + 1) e) : b.repeated.events = List.replicate (k + 2) e := by
  have hlast : b.events.getLast?.toList = [e] := by
    rw [h, List.getLast?_replicate]
    rfl
  rw [Block.repeated, hlast, h, ← List.replicate_succ']

namespace Ledger

variable {l l' l'' : Ledger} {key : Scalar} {n : UInt64} {b : Block} {e e' : NoteEvent}

theorem getElem?_concat_eq_some_iff {α : Type} {xs : List α} {x y : α} {i : Nat} :
    (xs ++ [x])[i]? = some y ↔ xs[i]? = some y ∨ i = xs.length ∧ x = y := by
  rcases Nat.lt_trichotomy i xs.length with hi | rfl | hi
  · rw [List.getElem?_append_left hi]
    constructor
    · exact .inl
    · rintro (h | ⟨rfl, -⟩)
      · exact h
      · exact absurd hi (Nat.lt_irrefl _)
  · simp
  · have hnone : xs[i]? = none := List.getElem?_eq_none (Nat.le_of_lt hi)
    have hnone' : (xs ++ [x])[i]? = none := List.getElem?_eq_none (by simpa using Nat.succ_le_of_lt hi)
    simp [hnone, hnone', Nat.ne_of_gt hi]

/-! ## Blocks -/

/-- What the blocks of a ledger that has begun empty are like. -/
structure Regular (l : Ledger) : Prop where
  distinct : l.hashes.Nodup
  single : ∀ (i : Nat) (b : Block), l.blocks[i]? = some b →
    ∃ k e, b.events = List.replicate (k + 1) e ∧ e.block = .ofNat (i + 1)
  indexed : l.Indexed
  rising : ∀ (i j : Nat) (b b' : Block), i < j → l.blocks[i]? = some b → l.blocks[j]? = some b' →
    ∀ e ∈ b.events, ∀ e' ∈ b'.events, e.noteIndex.toNat < e'.noteIndex.toNat

theorem regular_empty : ({} : Ledger).Regular where
  distinct := List.nodup_nil
  single i b hb := by simp at hb
  indexed b hb := by cases hb
  rising i j b b' hij hb := by simp at hb

theorem Regular.single_effect {key? : Option Scalar} (h : l.Regular) (he : l.Effect key? l') (i : Nat)
    (b : Block) (hb : l'.blocks[i]? = some b) :
    ∃ k e, b.events = List.replicate (k + 1) e ∧ e.block = .ofNat (i + 1) := by
  cases he with
  | leaves hl hblocks =>
    rw [hblocks] at hb
    exact h.single i b hb
  | @event _ _ e hnew hl hblocks hi hn =>
    rw [hblocks] at hb
    rcases getElem?_concat_eq_some_iff.1 hb with hb | ⟨rfl, rfl⟩
    · exact h.single i b hb
    · exact ⟨0, e, rfl, hn⟩
  | @copy _ bs b₀ hl hbefore hafter =>
    rw [hafter] at hb
    have hsingle := h.single i
    rw [hbefore] at hsingle
    rcases getElem?_concat_eq_some_iff.1 hb with hb | ⟨hi, rfl⟩
    · exact hsingle b (getElem?_concat_eq_some_iff.2 (.inl hb))
    · obtain ⟨k, e, hevents, hblock⟩ := hsingle b₀ (getElem?_concat_eq_some_iff.2 (.inr ⟨hi, rfl⟩))
      exact ⟨k + 1, e, Block.repeated_replicate hevents, hblock⟩

theorem Regular.rising_effect {key? : Option Scalar} (h : l.Regular) (he : l.Effect key? l')
    (hL : l'.leaves.length ≤ UInt64.size) (i j : Nat) (b b' : Block) (hij : i < j)
    (hb : l'.blocks[i]? = some b) (hb' : l'.blocks[j]? = some b') :
    ∀ e ∈ b.events, ∀ e' ∈ b'.events, e.noteIndex.toNat < e'.noteIndex.toNat := by
  intro e₁ he₁ e₂ he₂
  cases he with
  | leaves hl hblocks =>
    rw [hblocks] at hb hb'
    exact h.rising i j b b' hij hb hb' e₁ he₁ e₂ he₂
  | @event _ _ e hnew hl hblocks hi hn =>
    rw [hblocks] at hb hb'
    rcases getElem?_concat_eq_some_iff.1 hb with hold | ⟨rfl, rfl⟩
    · rcases getElem?_concat_eq_some_iff.1 hb' with hold' | ⟨rfl, rfl⟩
      · exact h.rising i j b b' hij hold hold' e₁ he₁ e₂ he₂
      · -- the new leaf is behind those of all events
        obtain rfl := List.mem_singleton.1 he₂
        have hleaf := h.indexed b (List.mem_of_getElem? hold) e₁ he₁
        have hlt := (List.getElem?_eq_some_iff.1 hleaf).1
        rw [hl, List.length_append, List.length_singleton] at hL
        rw [hi, UInt64.toNat_ofNat_of_lt' (by omega)]
        exact hlt
    · have hj := (List.getElem?_eq_some_iff.1 hb').1
      rw [List.length_append, List.length_singleton] at hj
      omega
  | @copy _ bs b₀ hl hbefore hafter =>
    -- every block has the events that it had before
    have hmem : ∀ (k : Nat) (d : Block), l'.blocks[k]? = some d →
        ∃ d', l.blocks[k]? = some d' ∧ ∀ e ∈ d.events, e ∈ d'.events := by
      intro k d hd
      rw [hafter] at hd
      rw [hbefore]
      rcases getElem?_concat_eq_some_iff.1 hd with hd | ⟨hk, rfl⟩
      · exact ⟨d, getElem?_concat_eq_some_iff.2 (.inl hd), fun e he => he⟩
      · exact ⟨b₀, getElem?_concat_eq_some_iff.2 (.inr ⟨hk, rfl⟩), fun e he => Block.mem_repeated he⟩
    obtain ⟨d, hd, hsub⟩ := hmem i b hb
    obtain ⟨d', hd', hsub'⟩ := hmem j b' hb'
    exact h.rising i j d d' hij hd hd' e₁ (hsub e₁ he₁) e₂ (hsub' e₂ he₂)

theorem Regular.distinct_effect {key? : Option Scalar} (h : l.Regular) (he : l.Effect key? l') :
    l'.hashes.Nodup := by
  rw [he.hashes_eq]
  cases he with
  | leaves hl hb => simpa using h.distinct
  | @event _ key e hnew hl hb hi hn =>
    have hnotMem : key ∉ l.hashes := by
      intro hmem
      obtain ⟨b, hb, hkey⟩ := List.mem_map.1 hmem
      exact hnew b hb hkey
    refine List.nodup_append.2 ⟨h.distinct, List.pairwise_singleton _ key, fun x hx y hy hxy => ?_⟩
    obtain rfl := List.mem_singleton.1 hy
    exact hnotMem (hxy ▸ hx)
  | copy hl hb hb' => simpa using h.distinct

theorem Regular.act (h : l.Regular) (act : Act) (hL : (act.apply l).leaves.length ≤ UInt64.size) :
    (act.apply l).Regular where
  distinct := h.distinct_effect (effect_act act l)
  single := h.single_effect (effect_act act l)
  indexed := (evolves_act act l).indexed h.indexed hL
  rising := h.rising_effect (effect_act act l) hL

theorem Regular.after {acts : List Act} (h : l.Regular)
    (hL : (l.after acts).leaves.length ≤ UInt64.size) : (l.after acts).Regular := by
  induction acts generalizing l with
  | nil => exact h
  | cons act acts ih =>
    have hbefore := Nat.le_trans (evolves_after (act.apply l) acts).leaves.length_le hL
    exact ih (h.act act hbefore) hL

/-! ## Look-ups -/

theorem toNat_blockNumber (hN : l.blocks.length < UInt64.size) :
    l.blockNumber.toNat = l.blocks.length := UInt64.toNat_ofNat_of_lt' hN

/-- Blocks are numbered from 1. -/
theorem block?_eq_some_iff (hN : l.blocks.length < UInt64.size) :
    l.block? n = some b ↔ ∃ i, l.blocks[i]? = some b ∧ n = .ofNat (i + 1) := by
  unfold block?
  constructor
  · intro h
    by_cases h0 : n = 0
    · simp [h0] at h
    · rw [if_neg h0] at h
      refine ⟨n.toNat - 1, h, UInt64.toNat_inj.1 ?_⟩
      have hpos : n.toNat ≠ 0 := fun hn => h0 (UInt64.toNat_inj.1 hn)
      have hlt := (List.getElem?_eq_some_iff.1 h).1
      rw [UInt64.toNat_ofNat_of_lt' (by omega)]
      omega
  · rintro ⟨i, hi, rfl⟩
    have hlt := (List.getElem?_eq_some_iff.1 hi).1
    have hnumber : (UInt64.ofNat (i + 1)).toNat = i + 1 := UInt64.toNat_ofNat_of_lt' (by omega)
    have hne : UInt64.ofNat (i + 1) ≠ 0 := by
      intro h0
      rw [h0] at hnumber
      simp at hnumber
    rw [if_neg hne, hnumber, Nat.add_sub_cancel]
    exact hi

theorem exists_block?_iff (hN : l.blocks.length < UInt64.size) :
    (∃ b, l.block? n = some b) ↔ 1 ≤ n ∧ n ≤ l.blockNumber := by
  have hnumber := toNat_blockNumber hN
  rw [UInt64.le_iff_toNat_le, UInt64.le_iff_toNat_le, hnumber, UInt64.toNat_one]
  constructor
  · rintro ⟨b, hb⟩
    obtain ⟨i, hi, rfl⟩ := (block?_eq_some_iff hN).1 hb
    have hlt := (List.getElem?_eq_some_iff.1 hi).1
    rw [UInt64.toNat_ofNat_of_lt' (by omega)]
    omega
  · rintro ⟨hpos, hle⟩
    have hlt : n.toNat - 1 < l.blocks.length := by omega
    refine ⟨l.blocks[n.toNat - 1], (block?_eq_some_iff hN).2
      ⟨n.toNat - 1, List.getElem?_eq_getElem hlt, UInt64.toNat_inj.1 ?_⟩⟩
    rw [UInt64.toNat_ofNat_of_lt' (by omega)]
    omega

/-- A hash is found in the block that registers it. -/
theorem Regular.nullifierBlock?_eq_some_iff (h : l.Regular) (hN : l.blocks.length < UInt64.size) :
    l.nullifierBlock? key = some n ↔ ∃ b, l.block? n = some b ∧ b.nullifierHash = key := by
  rw [nullifierBlock?, Option.map_eq_some_iff]
  constructor
  · rintro ⟨i, hi, rfl⟩
    obtain ⟨hlt, hkey, -⟩ := List.findIdx?_eq_some_iff_getElem.1 hi
    exact ⟨l.blocks[i], (block?_eq_some_iff hN).2 ⟨i, List.getElem?_eq_getElem hlt, rfl⟩,
      by simpa using hkey⟩
  · rintro ⟨b, hb, hkey⟩
    obtain ⟨i, hi, rfl⟩ := (block?_eq_some_iff hN).1 hb
    obtain ⟨hlt, rfl⟩ := List.getElem?_eq_some_iff.1 hi
    refine ⟨i, List.findIdx?_eq_some_iff_getElem.2 ⟨hlt, by simpa using hkey, fun j hj => ?_⟩, rfl⟩
    -- an earlier block with the same hash would be the same block
    have hne := List.pairwise_iff_getElem.1 h.distinct j i (by simp [hashes]; omega)
      (by simpa [hashes] using hlt) hj
    simpa [hashes, hkey] using hne

theorem mem_events_iff : e ∈ l.events n ↔ ∃ b, l.block? n = some b ∧ e ∈ b.events := by
  unfold events
  cases l.block? n with
  | none => simp
  | some b => simp

theorem events_of_block? (h : l.block? n = some b) : l.events n = b.events := by
  rw [events, h]

/-- The events of a block are copies of one event. -/
theorem Regular.events_eq (h : l.Regular) (hN : l.blocks.length < UInt64.size)
    (hb : l.block? n = some b) : ∃ k e, l.events n = List.replicate (k + 1) e ∧ e.block = n := by
  obtain ⟨i, hi, rfl⟩ := (block?_eq_some_iff hN).1 hb
  obtain ⟨k, e, hevents, hblock⟩ := h.single i b hi
  exact ⟨k, e, (events_of_block? hb).trans hevents, hblock⟩

/-! ## Coherence -/

/-- Registered hashes, blocks, events and leaves belong together. -/
structure Coherent (l : Ledger) : Prop where
  /-- There are as many registered hashes as the newest block says. -/
  count : ∃ keys : List Scalar, keys.Nodup ∧ keys.length = l.blockNumber.toNat ∧
    ∀ key, key ∈ keys ↔ l.nullifierBlock? key ≠ none
  injective : ∀ key key' n, l.nullifierBlock? key = some n → l.nullifierBlock? key' = some n → key = key'
  covered : ∀ n, (∃ key, l.nullifierBlock? key = some n) ↔ 1 ≤ n ∧ n ≤ l.blockNumber
  emitted : ∀ n, l.events n ≠ [] ↔ 1 ≤ n ∧ n ≤ l.blockNumber
  copies : ∀ n, ∀ e ∈ l.events n, ∀ e' ∈ l.events n, e = e'
  numbered : ∀ n, ∀ e ∈ l.events n, e.block = n
  placed : ∀ n, ∀ e ∈ l.events n, l.leaves[e.noteIndex.toNat]? = some e.note
  rising : ∀ n n', n < n' → ∀ e ∈ l.events n, ∀ e' ∈ l.events n', e.noteIndex < e'.noteIndex

theorem Regular.coherent (h : l.Regular) (hN : l.blocks.length < UInt64.size) : l.Coherent where
  count := by
    refine ⟨l.hashes, h.distinct, ?_, fun key => ?_⟩
    · rw [toNat_blockNumber hN, hashes, List.length_map]
    · rw [ne_eq, nullifierBlock?_eq_none_iff, hashes, List.mem_map]
      simp
  injective key key' n hkey hkey' := by
    obtain ⟨b, hb, rfl⟩ := (h.nullifierBlock?_eq_some_iff hN).1 hkey
    obtain ⟨b', hb', rfl⟩ := (h.nullifierBlock?_eq_some_iff hN).1 hkey'
    rw [hb, Option.some.injEq] at hb'
    rw [hb']
  covered n := by
    rw [← exists_block?_iff hN]
    constructor
    · rintro ⟨key, hkey⟩
      obtain ⟨b, hb, -⟩ := (h.nullifierBlock?_eq_some_iff hN).1 hkey
      exact ⟨b, hb⟩
    · rintro ⟨b, hb⟩
      exact ⟨b.nullifierHash, (h.nullifierBlock?_eq_some_iff hN).2 ⟨b, hb, rfl⟩⟩
  emitted n := by
    rw [← exists_block?_iff hN]
    constructor
    · intro hne
      obtain ⟨e, he⟩ := List.exists_mem_of_ne_nil _ hne
      obtain ⟨b, hb, -⟩ := mem_events_iff.1 he
      exact ⟨b, hb⟩
    · rintro ⟨b, hb⟩
      obtain ⟨k, e, hevents, -⟩ := h.events_eq hN hb
      rw [hevents]
      simp
  copies n e he e' he' := by
    obtain ⟨b, hb, -⟩ := mem_events_iff.1 he
    obtain ⟨k, e₀, hevents, -⟩ := h.events_eq hN hb
    rw [hevents] at he he'
    rw [List.eq_of_mem_replicate he, List.eq_of_mem_replicate he']
  numbered n e he := by
    obtain ⟨b, hb, -⟩ := mem_events_iff.1 he
    obtain ⟨k, e₀, hevents, hblock⟩ := h.events_eq hN hb
    rw [hevents] at he
    rw [List.eq_of_mem_replicate he, hblock]
  placed n e he := h.indexed.of_mem_events he
  rising n n' hlt e he e' he' := by
    obtain ⟨b, hb, hmem⟩ := mem_events_iff.1 he
    obtain ⟨b', hb', hmem'⟩ := mem_events_iff.1 he'
    obtain ⟨i, hi, rfl⟩ := (block?_eq_some_iff hN).1 hb
    obtain ⟨j, hj, rfl⟩ := (block?_eq_some_iff hN).1 hb'
    have hi' := (List.getElem?_eq_some_iff.1 hi).1
    have hj' := (List.getElem?_eq_some_iff.1 hj).1
    rw [UInt64.lt_iff_toNat_lt, UInt64.toNat_ofNat_of_lt' (by omega),
      UInt64.toNat_ofNat_of_lt' (by omega)] at hlt
    exact UInt64.lt_iff_toNat_lt.2 (h.rising i j b b' (by omega) hi hj e hmem e' hmem')

/-! ## What stays -/

/-- Leaves and blocks stay, except that the newest block may get copies of its event. -/
structure Retains (l l' : Ledger) : Prop where
  leaves : l.leaves <+: l'.leaves
  blocks : ∀ (i : Nat) (b : Block), l.blocks[i]? = some b → ∃ b', l'.blocks[i]? = some b' ∧
    b'.nullifierHash = b.nullifierHash ∧ b.events <+: b'.events ∧ (i + 1 < l.blocks.length → b' = b)

theorem Retains.refl (l : Ledger) : l.Retains l where
  leaves := List.prefix_refl _
  blocks _ b hb := ⟨b, hb, rfl, List.prefix_refl _, fun _ => rfl⟩

theorem Retains.length_le (h : l.Retains l') : l.blocks.length ≤ l'.blocks.length := by
  by_contra hlt
  have hlast : l'.blocks.length < l.blocks.length := by omega
  obtain ⟨b', hb', -⟩ := h.blocks _ _ (List.getElem?_eq_getElem hlast)
  exact Nat.lt_irrefl _ (List.getElem?_eq_some_iff.1 hb').1

theorem Retains.trans (h : l.Retains l') (h' : l'.Retains l'') : l.Retains l'' where
  leaves := h.leaves.trans h'.leaves
  blocks i b hb := by
    obtain ⟨b', hb', hkey, hevents, heq⟩ := h.blocks i b hb
    obtain ⟨b'', hb'', hkey', hevents', heq'⟩ := h'.blocks i b' hb'
    refine ⟨b'', hb'', hkey'.trans hkey, hevents.trans hevents', fun hi => ?_⟩
    rw [heq' (Nat.lt_of_lt_of_le hi h.length_le), heq hi]

theorem Effect.retains {key? : Option Scalar} (h : l.Effect key? l') : l.Retains l' := by
  cases h with
  | leaves hl hblocks => exact ⟨hl, fun i b hb =>
      ⟨b, hblocks ▸ hb, rfl, List.prefix_refl _, fun _ => rfl⟩⟩
  | event hnew hl hblocks hi hn =>
    refine ⟨hl ▸ List.prefix_append _ _, fun i b hb => ⟨b, ?_, rfl, List.prefix_refl _, fun _ => rfl⟩⟩
    rw [hblocks]
    exact getElem?_concat_eq_some_iff.2 (.inl hb)
  | @copy _ bs b₀ hl hbefore hafter =>
    refine ⟨hl ▸ List.prefix_refl _, fun i b hb => ?_⟩
    rw [hbefore] at hb ⊢
    rw [hafter]
    rcases getElem?_concat_eq_some_iff.1 hb with hb | ⟨rfl, rfl⟩
    · exact ⟨b, getElem?_concat_eq_some_iff.2 (.inl hb), rfl, List.prefix_refl _, fun _ => rfl⟩
    · refine ⟨b₀.repeated, getElem?_concat_eq_some_iff.2 (.inr ⟨rfl, rfl⟩), rfl,
        List.prefix_append _ _, fun hi => ?_⟩
      rw [List.length_append, List.length_singleton] at hi
      omega

theorem retains_after (l : Ledger) (acts : List Act) : l.Retains (l.after acts) := by
  induction acts generalizing l with
  | nil => exact .refl l
  | cons act acts ih => exact (effect_act act l).retains.trans (ih (act.apply l))

/-- What was there before is never changed or removed. Only the newest event may be copied. -/
structure Preserves (l l' : Ledger) : Prop where
  leaves : l.leaves <+: l'.leaves
  registered : ∀ key n, l.nullifierBlock? key = some n → l'.nullifierBlock? key = some n
  settled : ∀ n, n ≠ l.blockNumber → l.events n ≠ [] → l'.events n = l.events n
  newest : ∀ e ∈ l.events l.blockNumber,
    ∃ k, l'.events l.blockNumber = l.events l.blockNumber ++ List.replicate k e

theorem Retains.block? (h : l.Retains l') (hN : l'.blocks.length < UInt64.size)
    (hb : l.block? n = some b) : ∃ b', l'.block? n = some b' ∧ b'.nullifierHash = b.nullifierHash ∧
      b.events <+: b'.events ∧ (n ≠ l.blockNumber → b' = b) := by
  have hN' := Nat.lt_of_le_of_lt h.length_le hN
  obtain ⟨i, hi, rfl⟩ := (block?_eq_some_iff hN').1 hb
  obtain ⟨b', hb', hkey, hevents, heq⟩ := h.blocks i b hi
  refine ⟨b', (block?_eq_some_iff hN).2 ⟨i, hb', rfl⟩, hkey, hevents, fun hne => heq ?_⟩
  have hlt := (List.getElem?_eq_some_iff.1 hi).1
  rcases Nat.lt_or_eq_of_le (Nat.succ_le_of_lt hlt) with hlt' | hlast
  · exact hlt'
  · exact absurd (congrArg UInt64.ofNat hlast) hne

theorem Retains.preserves (h : l.Retains l') (hl : l.Regular) (hl' : l'.Regular)
    (hN : l'.blocks.length < UInt64.size) : l.Preserves l' := by
  have hN' := Nat.lt_of_le_of_lt h.length_le hN
  refine ⟨h.leaves, fun key n hkey => ?_, fun n hne hevents => ?_, fun e he => ?_⟩
  · obtain ⟨b, hb, rfl⟩ := (hl.nullifierBlock?_eq_some_iff hN').1 hkey
    obtain ⟨b', hb', hkey', -, -⟩ := h.block? hN hb
    exact (hl'.nullifierBlock?_eq_some_iff hN).2 ⟨b', hb', hkey'⟩
  · obtain ⟨e, he⟩ := List.exists_mem_of_ne_nil _ hevents
    obtain ⟨b, hb, -⟩ := mem_events_iff.1 he
    obtain ⟨b', hb', -, -, heq⟩ := h.block? hN hb
    rw [events_of_block? hb', events_of_block? hb, heq hne]
  · obtain ⟨b, hb, -⟩ := mem_events_iff.1 he
    obtain ⟨b', hb', -, ⟨more, hmore⟩, -⟩ := h.block? hN hb
    -- all events of the block are copies of one event, also the later ones
    have hcopies := (hl'.coherent hN).copies l.blockNumber
    rw [events_of_block? hb] at he ⊢
    rw [events_of_block? hb', ← hmore] at hcopies ⊢
    refine ⟨more.length, ?_⟩
    rw [List.eq_replicate_of_mem fun x hx =>
      hcopies x (List.mem_append_right _ hx) e (List.mem_append_left _ he)]
    simp

/-! ## Runs -/

/-- A ledger that has begun empty is coherent after every run with fewer than `2 ^ 64` blocks. What was
there after a part of the run is there at its end. No hash is registered twice, so at most one
transaction with it is accepted, and no call is used up twice, so it is executed once at most. The leaves
are held in memory, which has no room for more than `hL` says. -/
theorem coherent_after (acts : List Act) (hN : (({} : Ledger).after acts).blocks.length < UInt64.size)
    (hL : (({} : Ledger).after acts).leaves.length ≤ UInt64.size) :
    (({} : Ledger).after acts).Coherent ∧
      (∀ earlier later, earlier ++ later = acts →
        (({} : Ledger).after earlier).Preserves (({} : Ledger).after acts)) ∧
      (collect registered? {} acts).Nodup ∧ (collect taken? {} acts).Nodup := by
  have hregular := regular_empty.after hL
  refine ⟨hregular.coherent hN, ?_, ?_, nodup_taken {} acts⟩
  · rintro earlier later rfl
    rw [after_append] at hN hL hregular ⊢
    have hL' := Nat.le_trans (evolves_after _ later).leaves.length_le hL
    exact (retains_after _ later).preserves (regular_empty.after hL') hregular hN
  · have hhashes := hregular.distinct
    rw [hashes_after] at hhashes
    exact hhashes

/-- The account 7 is opened with 100 by a transaction, which is refused when it is sent again. Then a
leaf is pushed, and the event is repeated. -/
theorem coherent_after_repeated7 :
    let paid : TransactionRequest := ⟨address, address, Bytes.ofNatBE 8 0, 100⟩
    let opened : List Act :=
      [.operation (.ask (.encode .opening .supported address opening7)), .operation (.execute paid)]
    let rest : List Act :=
      [.operation (.execute paid), .operation (.pushLeaf 5), .repeatLastEvent]
    let l₁ := ({} : Ledger).after opened
    let l := ({} : Ledger).after (opened ++ rest)
    (∃ reason, l₁.execute paid = (.error reason, l₁)) ∧
      l.blocks.length = 1 ∧ l.leaves.length = 2 ∧ (l.events 1).length = 2 ∧
      l.Coherent ∧ l₁.Preserves l ∧
      collect registered? {} (opened ++ rest) = [opening7.key] ∧
      (collect registered? {} (opened ++ rest)).Nodup ∧
      collect taken? {} (opened ++ rest) = [0] ∧ (collect taken? {} (opened ++ rest)).Nodup := by
  intro paid opened rest l₁ l
  let l₀ := ({} : Ledger).encoding opening7
  have hencoded : (Act.operation (.ask (.encode .opening .supported address opening7))).apply {} = l₀ :=
    admits_opening7.apply_encode address
  have hbrings : l₀.Brings paid 0 opening7 := admits_opening7.brings address
  have hpaid : (Act.operation (.execute paid)).apply l₀ = l₁ := by
    simp only [l₁, opened, after, hencoded]
  have haccepts : l₀.Accepts opening7 l₁ := hpaid ▸ hbrings.execute.2
  -- the first transaction uses the call up, and the second one finds none
  have htaken : l₀.taken? (.operation (.execute paid)) = some 0 := by
    rw [taken?, hbrings.brought]
    rfl
  have hagain : l₁.brought? paid = none := hpaid ▸ brought?_of_taken? htaken
  obtain ⟨reason, hrefused⟩ := execute_of_brought?_none hagain
  have hl : l = (l₁.pushLeaf 5).2.repeatLastEvent := by
    show ({} : Ledger).after (opened ++ rest) = _
    rw [after_append, after, apply_of_brought?_none hagain]
    rfl
  have hblocks₁ : (l₁.pushLeaf 5).2.blocks = [] ++ [⟨opening7.key, [l₀.eventOf opening7]⟩] :=
    (blocks_pushLeaf l₁ 5).trans haccepts.blocks_eq
  have hblocks : l.blocks = [⟨opening7.key, [l₀.eventOf opening7, l₀.eventOf opening7]⟩] := by
    rw [hl, blocks_repeatLastEvent hblocks₁]
    rfl
  have hleaves : l.leaves = [opening7.note, 5] := by
    rw [hl, leaves_repeatLastEvent, leaves_pushLeaf, haccepts.leaves_eq]
    rfl
  have hevents : l.events 1 = [l₀.eventOf opening7, l₀.eventOf opening7] := by
    refine events_of_block? (b := ⟨opening7.key, _⟩) ?_
    rw [block?, hblocks]
    rfl
  have hregistered : collect registered? {} (opened ++ rest) = [opening7.key] := by
    have hhashes : l.hashes = [] ++ collect registered? {} (opened ++ rest) :=
      hashes_after {} (opened ++ rest)
    rw [List.nil_append, hashes, hblocks] at hhashes
    rw [← hhashes]
    rfl
  have hused : collect taken? {} (opened ++ rest) = [0] := by
    have hrest : collect taken? l₁ rest = [] := by
      rw [collect, taken?, hagain]
      rfl
    have hopened : collect taken? l₀ (.operation (.execute paid) :: rest) = [0] := by
      rw [collect, htaken, hpaid, hrest]
      rfl
    show collect taken? {} (_ :: .operation (.execute paid) :: rest) = _
    rw [collect, hencoded, hopened]
    rfl
  have hN : l.blocks.length < UInt64.size := by
    rw [hblocks]
    decide
  have hL : l.leaves.length ≤ UInt64.size := by
    rw [hleaves]
    decide
  obtain ⟨hcoherent, hpreserves, hdistinct, honce⟩ := coherent_after (opened ++ rest) hN hL
  refine ⟨⟨reason, hrefused⟩, ?_, ?_, ?_, hcoherent, hpreserves opened rest rfl, hregistered,
    hdistinct, hused, honce⟩
  · rw [hblocks]
    rfl
  · rw [hleaves]
    rfl
  · rw [hevents]
    rfl

end Ledger

end ShieldedWallet.Simulation
