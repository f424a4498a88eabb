import ShieldedWallet.Proofs.Simulation.Entire

/-!
# The chain of an account

The blocks that register the search hashes of an account form its chain: the `n`-th of them registers
the `n`-th search hash, and its event leads from the `n`-th account to the next one. Whoever sends a
call, and however outdated the account is that the call was prepared from: a call that the ledger
accepts continues the end of the chain, because the search hashes of all other accounts of the chain
are used up.
-/

namespace ShieldedWallet.Simulation

open History (Step Follows lastOf)

/-- The first `N + 1` search hashes of the account differ. -/
def Distinct (N : Nat) (id : Scalar) : Prop :=
  ∀ i ≤ N, ∀ j ≤ N, searchHash id i = searchHash id j → i = j

instance (N : Nat) (id : Scalar) : Decidable (Distinct N id) :=
  inferInstanceAs (Decidable (∀ i ≤ N, ∀ j ≤ N, searchHash id i = searchHash id j → i = j))

/-- The block registers one of the first `N + 1` search hashes of the account. -/
def Block.IsOf (N : Nat) (id : Scalar) (b : Block) : Prop :=
  ∃ j ≤ N, b.nullifierHash = searchHash id j

open Classical in
/-- The blocks of an account, in their order. -/
noncomputable def Ledger.blocksOf (N : Nat) (id : Scalar) (l : Ledger) : List Block :=
  l.blocks.filter fun b => b.IsOf N id

/-- The steps are the chain of the account on the ledger. -/
structure Chain (version : ContractVersion) (N : Nat) (id : Scalar) (l : Ledger) (xs : List Step) :
    Prop where
  version_eq : l.version = version
  follows : Follows (Next simulated version l) (.unopened id) xs
  blocks_eq : l.blocksOf N id = xs.mapIdx fun i x => ⟨searchHash id i, [x.event]⟩

/-- The account after the first `k` steps. -/
def stateAt (id : Scalar) (xs : List Step) (k : Nat) : Account := lastOf (.unopened id) (xs.take k)

variable {version : ContractVersion} {N : Nat} {id : Scalar} {l l' : Ledger} {xs ys : List Step}
  {k : Nat}

theorem stateAt_length (id : Scalar) (xs : List Step) :
    stateAt id xs xs.length = lastOf (.unopened id) xs := by
  rw [stateAt, List.take_length]

theorem stateAt_append (hk : k ≤ xs.length) : stateAt id (xs ++ ys) k = stateAt id xs k := by
  rw [stateAt, stateAt, List.take_append_of_le_length hk]

namespace Chain

theorem leads (h : Chain version N id l xs) :
    Follows (fun a e b => e.Leads a b) (.unopened id) xs :=
  h.follows.mono fun _ _ _ hn => hn.leads

theorem follows_take (h : Chain version N id l xs) (k : Nat) :
    Follows (fun a e b => e.Leads a b) (.unopened id) (xs.take k) := by
  have hx := h.leads
  rw [← List.take_append_drop k xs] at hx
  exact (History.follows_append.1 hx).1

theorem id_stateAt (h : Chain version N id l xs) (k : Nat) : (stateAt id xs k).id = id :=
  (h.follows_take k).id_lastOf

theorem nonce_stateAt (h : Chain version N id l xs) (hk : k ≤ xs.length) :
    (stateAt id xs k).nonce.toNat = k := by
  have hn := (h.follows_take k).nonce_lastOf
  rw [List.length_take, Nat.min_eq_left hk] at hn
  exact hn.trans (Nat.zero_add k)

/-- Only the first state has no note. -/
theorem isUnopened_or (h : Chain version N id l xs) (hk : k ≤ xs.length) :
    (stateAt id xs k).isUnopened = true ∨ (stateAt id xs k).nonce ≠ 0 := by
  cases k with
  | zero => exact .inl rfl
  | succ k =>
    refine .inr fun h0 => ?_
    have hn := h.nonce_stateAt hk
    rw [h0] at hn
    simp at hn

theorem events_eq (h : Chain version N id l xs) :
    (l.blocksOf N id).flatMap Block.events = xs.map Step.event := by
  have hevents : ∀ f : Nat → Scalar, (xs.mapIdx fun i x => (⟨f i, [x.event]⟩ : Block)).flatMap
      Block.events = xs.map Step.event := by
    clear h
    induction xs with
    | nil => intro f; rfl
    | cons x xs ih =>
      intro f
      rw [List.mapIdx_cons, List.flatMap_cons, ih, List.map_cons]
      rfl
  rw [h.blocks_eq]
  exact hevents _

theorem length_le (h : Chain version N id l xs) : xs.length ≤ l.blocks.length := by
  have hlen := congrArg List.length h.blocks_eq
  rw [List.length_mapIdx] at hlen
  rw [← hlen]
  exact List.length_filter_le _ _

/-- The search hashes that are not registered are those from the end of the chain on. -/
theorem fresh_iff (h : Chain version N id l xs) (hd : Distinct N id) (hN : l.blocks.length ≤ N)
    {j : Nat} (hj : j ≤ N) : (∀ b ∈ l.blocks, b.nullifierHash ≠ searchHash id j) ↔ xs.length ≤ j := by
  constructor
  · intro hfresh
    refine Nat.le_of_not_lt fun hj' => ?_
    have hmem : ⟨searchHash id j, [xs[j].event]⟩ ∈ l.blocksOf N id := by
      rw [h.blocks_eq, List.mem_mapIdx]
      exact ⟨j, hj', rfl⟩
    exact hfresh _ (List.mem_filter.1 hmem).1 rfl
  · intro hle b hb he
    have hmem : b ∈ l.blocksOf N id := List.mem_filter.2 ⟨hb, by simpa using ⟨j, hj, he⟩⟩
    rw [h.blocks_eq, List.mem_mapIdx] at hmem
    obtain ⟨i, hi, rfl⟩ := hmem
    have hlen := h.length_le
    have hij := hd i (by omega) j hj he
    omega

/-- The chain has no next step, for a wallet of any version. -/
theorem eval_last (h : Chain version N id l xs) (hd : Distinct N id) (hN : l.blocks.length ≤ N)
    (expected : ContractVersion) :
    (History.next? expected (lastOf (.unopened id) xs)).run.eval (reading simulated l) = .ok none := by
  have hstate := stateAt_length id xs
  have hn := h.nonce_stateAt (Nat.le_refl xs.length)
  have hid := h.id_stateAt xs.length
  have ho := h.isUnopened_or (Nat.le_refl xs.length)
  rw [hstate] at hn hid ho
  refine eval_no_step (fun q => rfl) ho ?_
  have hfresh := (h.fresh_iff hd hN (Nat.le_trans h.length_le hN)).2 (Nat.le_refl xs.length)
  rw [hn, hid]
  exact congrArg Except.ok (Ledger.nullifierBlock?_eq_none_iff.2 hfresh)

/-- From each of its states the chain is the entire walk. -/
theorem entire (h : Chain version N id l xs) (hd : Distinct N id) (hN : l.blocks.length ≤ N) (k : Nat) :
    Entire simulated version l (stateAt id xs k) (xs.drop k) := by
  have hx : Entire simulated version l (.unopened id) (xs.take k ++ xs.drop k) := by
    rw [List.take_append_drop]
    exact ⟨h.follows, h.eval_last hd hN version⟩
  exact hx.drop

/-- A walk from a state of the chain goes through its next states. -/
theorem walk_eq (h : Chain version N id l xs) (hd : Distinct N id) (hN : l.blocks.length ≤ N)
    (hk : k ≤ xs.length) (hy : Follows (Next simulated version l) (stateAt id xs k) ys) :
    k + ys.length ≤ xs.length ∧ lastOf (stateAt id xs k) ys = stateAt id xs (k + ys.length) := by
  have hwalk := (h.entire hd hN k).begins hy
  have hle := hwalk.length_le
  rw [List.length_drop] at hle
  refine ⟨by omega, ?_⟩
  have hys : (xs.drop k).take ys.length = ys := (List.prefix_iff_eq_take.1 hwalk).symm
  rw [stateAt, stateAt, ← History.lastOf_append, List.take_add, hys]

theorem read_item (h : Chain version N id l xs) (hk : k ≤ xs.length) {r : Register} (hr : r.id = id) :
    r.read (some (r.item (stateAt id xs k))) = .ok (stateAt id xs k) :=
  Register.read_item ((h.id_stateAt k).trans hr.symm) (h.isUnopened_or hk)

theorem other (h : Chain version N id l xs) (hg : l.Grows l') (hv : l'.version = l.version)
    (hb : ∀ b ∈ l'.blocks.drop l.blocks.length, ¬ b.IsOf N id) : Chain version N id l' xs where
  version_eq := hv.trans h.version_eq
  follows := h.follows.mono fun _ _ _ hn => hn.mono hg
  blocks_eq := by
    obtain ⟨bs, hbs⟩ := hg.blocks
    rw [← hbs, List.drop_left] at hb
    classical
    have hnil : bs.filter (fun b => b.IsOf N id) = [] :=
      List.filter_eq_nil_iff.2 fun b hb' => by simpa using hb b hb'
    rw [← h.blocks_eq, Ledger.blocksOf, Ledger.blocksOf, ← hbs, List.filter_append]
    simp only [hnil, List.append_nil]

theorem quiet (h : Chain version N id l xs) (hg : l.Grows l') (hv : l'.version = l.version)
    (hb : l'.blocks = l.blocks) : Chain version N id l' xs :=
  h.other hg hv (by rw [hb, List.drop_length]; simp)

/-! ## Calls -/

theorem key_eq (h : Chain version N id l xs) (hk : k ≤ xs.length) {m : Movement} {c : Call m}
    (hc : c.Continues simulated version (stateAt id xs k)) :
    c.key = searchHash id (if m = .opening then 0 else k) := by
  have hkey := searchHash_of_isSearchHash hc.key
  by_cases hm : m = .opening
  · rw [if_pos hm] at hkey ⊢
    rw [hkey]
    exact congrArg (searchHash · 0) (h.id_stateAt k)
  · rw [if_neg hm] at hkey ⊢
    rw [hkey, h.id_stateAt k, h.nonce_stateAt hk]

/-- A call that continues a state of the chain and registers a new hash continues the last state: the
search hashes of the others are used up. -/
theorem eq_length (h : Chain version N id l xs) (hd : Distinct N id) (hN : l.blocks.length ≤ N)
    (hk : k ≤ xs.length) {m : Movement} {c : Call m}
    (hc : c.Continues simulated version (stateAt id xs k))
    (hnew : ∀ b ∈ l.blocks, b.nullifierHash ≠ c.key) :
    k = xs.length ∧ (if m = .opening then 0 else k) = xs.length := by
  have hlen := h.length_le
  have hj : (if m = .opening then 0 else k) ≤ k := by split <;> omega
  rw [h.key_eq hk hc] at hnew
  have hle := (h.fresh_iff hd hN (by omega)).1 hnew
  omega

/-- A block with the event of a call that continues a state of the chain, and whose key is new, continues
the end of the chain: its event is the next step. -/
theorem extend (h : Chain version N id l xs) (hd : Distinct N id) (hN : l'.blocks.length ≤ N)
    (hN' : N < UInt64.size) (hk : k ≤ xs.length) {m : Movement} {c : Call m}
    (hc : c.Continues simulated version (stateAt id xs k)) (hg : l.Grows l')
    (hversion : l'.version = l.version) (hnew : ∀ b ∈ l.blocks, b.nullifierHash ≠ c.key)
    {destination : Option Address} {fee : Option UInt256} (hblocks : l'.blocks =
      l.blocks ++ [⟨c.key, [l.nextEvent m c.amount c.note destination fee]⟩]) :
    ∃ b, Chain version N id l' (xs ++ [⟨l.nextEvent m c.amount c.note destination fee, b⟩]) := by
  rw [hblocks, List.length_append, List.length_singleton] at hN
  obtain ⟨hlast, hindex⟩ := h.eq_length hd (by omega) hk hc hnew
  have hkey : c.key = searchHash id xs.length := by rw [h.key_eq hk hc, hindex]
  have hopening : m = .opening → (stateAt id xs xs.length).isUnopened = true := by
    intro hm
    rw [← hindex, if_pos hm]
    rfl
  rw [hlast] at hc
  have hmatches : (l.nextEvent m c.amount c.note destination fee).Matches simulated version
      (stateAt id xs xs.length) := ⟨hc.appliesTo hopening, hc.nonce_ne, hc.note⟩
  -- the new block is found by the search hash of the last state
  have hsearch : searchHash (stateAt id xs xs.length).id (stateAt id xs xs.length).nonce.toNat =
      c.key := by
    rw [h.nonce_stateAt (Nat.le_refl _), h.id_stateAt, hkey]
  have hfresh : l.nullifierBlock? c.key = none := Ledger.nullifierBlock?_eq_none_iff.2 hnew
  rw [← hsearch] at hfresh
  obtain ⟨b, hb⟩ := next_append (h.isUnopened_or (Nat.le_refl _)) hmatches h.version_eq hfresh
    (by rw [hsearch]; exact hblocks) (by omega)
  rw [stateAt_length] at hb
  refine ⟨b, hversion.trans h.version_eq, ?_, ?_⟩
  · exact History.follows_append.2 ⟨h.follows.mono fun _ _ _ hn => hn.mono hg, hb, trivial⟩
  · have hown : Block.IsOf N id ⟨c.key, [l.nextEvent m c.amount c.note destination fee]⟩ :=
      ⟨xs.length, by have := h.length_le; omega, hkey⟩
    rw [Ledger.blocksOf, hblocks, List.filter_append, List.mapIdx_concat, ← h.blocks_eq, ← hkey]
    simp [hown, Ledger.blocksOf]

/-- A call that continues a state of the chain and is accepted continues the end of the chain. -/
theorem append (h : Chain version N id l xs) (hd : Distinct N id) (hN : l'.blocks.length ≤ N)
    (hN' : N < UInt64.size) (hk : k ≤ xs.length) {m : Movement} {c : Call m}
    (hc : c.Continues simulated version (stateAt id xs k)) {destination : Option Address}
    {fee : Option UInt256} {txHash : Hash256}
    (ha : l.append m c.amount c.note c.key destination fee = .ok (txHash, l')) :
    ∃ x : Step, x.event.txHash = txHash ∧ Chain version N id l' (xs ++ [x]) := by
  have hg := Ledger.grows_append ha
  obtain ⟨hnew, rfl, hl'⟩ := Ledger.append_eq_ok ha
  obtain ⟨b, hb⟩ := h.extend hd hN hN' hk hc hg (by rw [hl']) hnew (by rw [hl'])
  exact ⟨⟨l.nextEvent m c.amount c.note destination fee, b⟩, rfl, hb⟩

/-- A transaction that brings a call which continues a state of the chain adds the next step if it is
accepted, and nothing if it is refused. -/
theorem execute (h : Chain version N id l xs) (hd : Distinct N id) (hN' : N < UInt64.size)
    {tx : TransactionRequest} (hN : (l.execute tx).2.blocks.length ≤ N) (hk : k ≤ xs.length)
    {m : Movement} {c : Call m} (hc : c.Continues simulated version (stateAt id xs k))
    {v : ContractVersion} (he : l.Encodes v c tx.data) :
    ∃ ys : List Step, Chain version N id (l.execute tx).2 (xs ++ ys) ∧
      (l.execute tx).1.toOption.toList = ys.map fun x => x.event.txHash := by
  rcases Ledger.execute_cases l tx with ⟨reason, hr, hl⟩ | ⟨n, m', c', txHash, l', hn, hcall, hp, hx⟩
  · refine ⟨[], ?_, by rw [hr]; rfl⟩
    rw [List.append_nil]
    rcases hl with hl | ⟨n, hl⟩
    · rw [hl]
      exact h
    · rw [hl]
      exact h.quiet (Ledger.grows_used l n) rfl rfl
  · rw [hx] at hN ⊢
    obtain ⟨n', -, hdata, c₁, hchecked, hcalls⟩ := he
    have hnn : n = n' := Option.some.inj (hn.symm.trans hdata)
    rw [hnn] at hcall hp
    have hcc := hcalls _ hcall
    cases hcc
    obtain ⟨hamount, hnote, hkey⟩ := Ledger.checkedCall_eq_ok hchecked
    have hused : Chain version N id (l.used n') xs := h.quiet (Ledger.grows_used l n') rfl rfl
    obtain ⟨x, hhash, hx⟩ := hused.append hd hN hN' hk (hc.congr hamount hnote hkey)
      (Ledger.perform_eq_ok hp)
    refine ⟨[x], hx, ?_⟩
    rw [List.map_singleton, hhash]
    rfl

/-- The same for a call that the relayer submits. -/
theorem relay (h : Chain version N id l xs) (hd : Distinct N id) (hN' : N < UInt64.size)
    {c : Calldata .withdrawal} (hN : (World.relay c.relayRequest l).2.blocks.length ≤ N)
    (hE : (World.relay c.relayRequest l).2.encoded.length ≤ UInt64.size) (hk : k ≤ xs.length)
    (hc : c.call.Continues simulated version (stateAt id xs k)) :
    ∃ ys : List Step, Chain version N id (World.relay c.relayRequest l).2 (xs ++ ys) ∧
      (World.relay c.relayRequest l).1.toOption.toList = ys.map fun x => x.event.txHash := by
  have hg := l.grows_answer (Ledger.relayedQuery c.relayRequest)
  obtain ⟨hblocks, hversion⟩ := l.unchanged_answer (Ledger.relayedQuery c.relayRequest)
  have hasked := h.quiet hg hversion hblocks
  rcases Ledger.relay_cases c.relayRequest l with ⟨e, hr⟩ | ⟨tx, hdata, hr⟩
  · rw [hr]
    exact ⟨[], by rwa [List.append_nil], rfl⟩
  · rw [hr] at hN hE ⊢
    -- the call of the relayer differs from the prepared one only in what the contract computes
    have hrelayed : (World.relayedCall c.relayRequest).Continues simulated version (stateAt id xs k) :=
      hc.congr rfl rfl rfl
    have hE' := Nat.le_trans (Ledger.grows_execute _ tx).encoded hE
    have hencodes := Ledger.encodes_answer hdata hE'
    obtain ⟨ys, hys, hhashes⟩ := hasked.execute hd hN' hN hk hrelayed hencodes
    refine ⟨ys, hys, ?_⟩
    rw [← hhashes]
    cases ((l.answer (Ledger.relayedQuery c.relayRequest)).2.execute tx).1 <;> rfl

end Chain

end ShieldedWallet.Simulation
