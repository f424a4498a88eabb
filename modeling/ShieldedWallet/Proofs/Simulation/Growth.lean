import ShieldedWallet.Proofs.Payment.Prepared
import ShieldedWallet.Simulation.World

/-!
# How the ledger grows

Whatever happens on the ledger, short of repeating an event, its blocks stay and new ones come behind
them, and an encoded call stays or is used up. So a look-up that has found something finds the same
ever after.
-/

namespace ShieldedWallet

namespace Simulation.Ledger

/-- Blocks are only added behind the others, and encoded calls are only added or used up. -/
structure Grows (l l' : Ledger) : Prop where
  blocks : l.blocks <+: l'.blocks
  encoded : l.encoded.length ≤ l'.encoded.length
  call : ∀ n < l.encoded.length, ∀ c, l'.call? n = some c → l.call? n = some c

theorem Grows.refl (l : Ledger) : Grows l l := ⟨List.prefix_refl _, Nat.le_refl _, fun _ _ _ h => h⟩

theorem Grows.trans {l l' l'' : Ledger} (h : Grows l l') (h' : Grows l' l'') : Grows l l'' where
  blocks := h.blocks.trans h'.blocks
  encoded := Nat.le_trans h.encoded h'.encoded
  call n hn c hc := h.call n hn c (h'.call n (Nat.lt_of_lt_of_le hn h.encoded) c hc)

theorem Grows.of_eq {l l' : Ledger} (hb : l'.blocks = l.blocks) (he : l'.encoded = l.encoded) :
    Grows l l' where
  blocks := hb ▸ List.prefix_refl _
  encoded := he ▸ Nat.le_refl _
  call n _ c hc := by rwa [call?, he] at hc

/-! ## Executing -/

/-- The event of the next block. -/
def nextEvent (l : Ledger) (m : Movement) (amount : UInt256) (note : Scalar)
    (destination : Option Address) (fee : Option UInt256) : NoteEvent where
  movement := m
  version := l.version
  amount := amount
  note := note
  noteIndex := .ofNat l.leaves.length
  destination := destination
  relayerFee := fee
  txHash := txHash (.ofNat (l.blocks.length + 1)) (.ofNat l.leaves.length)
  block := .ofNat (l.blocks.length + 1)

variable {l l' : Ledger} {m : Movement} {amount : UInt256} {note key : Scalar}
  {destination : Option Address} {fee : Option UInt256} {hash : Hash256}

theorem nullifierBlock?_eq_none_iff :
    l.nullifierBlock? key = none ↔ ∀ b ∈ l.blocks, b.nullifierHash ≠ key := by
  rw [nullifierBlock?, Option.map_eq_none_iff, List.findIdx?_eq_none_iff]
  simp

/-- A note is appended if its hash is not registered. -/
theorem append_ok (hnew : l.nullifierBlock? key = none) :
    l.append m amount note key destination fee =
      .ok ((l.nextEvent m amount note destination fee).txHash, { l with
        leaves := l.leaves ++ [note]
        blocks := l.blocks ++ [⟨key, [l.nextEvent m amount note destination fee]⟩] }) := by
  rw [nullifierBlock?_eq_none_iff] at hnew
  rw [append, if_neg (by simpa using hnew)]
  rfl

/-- Appending a note adds one block, which registers a new hash. -/
theorem append_eq_ok (h : l.append m amount note key destination fee = .ok (hash, l')) :
    (∀ b ∈ l.blocks, b.nullifierHash ≠ key) ∧
      hash = (l.nextEvent m amount note destination fee).txHash ∧
      l' = { l with
        leaves := l.leaves ++ [note]
        blocks := l.blocks ++ [⟨key, [l.nextEvent m amount note destination fee]⟩] } := by
  unfold append at h
  split at h
  case isTrue => cases h
  case isFalse hnew =>
    obtain ⟨hhash, hl⟩ := Prod.mk.inj (Except.ok.inj h)
    refine ⟨fun b hb he => hnew (List.any_eq_true.2 ⟨b, hb, by simpa using he⟩), ?_, ?_⟩
    · simp only [nextEvent, hhash]
    · simp only [nextEvent, ← hl]

/-- The hash of a new block is found at the end, if it is not registered before. -/
theorem nullifierBlock?_append (hnew : l.nullifierBlock? key = none) (es : List NoteEvent)
    (hl : l'.blocks = l.blocks ++ [⟨key, es⟩]) :
    l'.nullifierBlock? key = some (.ofNat (l.blocks.length + 1)) := by
  rw [nullifierBlock?, Option.map_eq_none_iff] at hnew
  rw [nullifierBlock?, hl, List.findIdx?_append, hnew]
  simp

theorem events_append (es : List NoteEvent) (hl : l'.blocks = l.blocks ++ [⟨key, es⟩])
    (hlen : l.blocks.length + 1 < UInt64.size) :
    l'.events (.ofNat (l.blocks.length + 1)) = es := by
  have hnumber : (UInt64.ofNat (l.blocks.length + 1)).toNat = l.blocks.length + 1 :=
    UInt64.toNat_ofNat_of_lt' hlen
  have hne : UInt64.ofNat (l.blocks.length + 1) ≠ 0 := by
    intro h0
    rw [h0] at hnumber
    simp at hnumber
  rw [events, block?, if_neg hne, hnumber, hl, Nat.add_sub_cancel]
  simp

theorem exists_block_of_mem_events {block : UInt64} {e : NoteEvent} (he : e ∈ l.events block) :
    ∃ b ∈ l.blocks, e ∈ b.events := by
  unfold events block? at he
  by_cases h0 : block = 0
  · simp [h0] at he
  · rw [if_neg h0] at he
    cases hb : l.blocks[block.toNat - 1]? with
    | none => simp [hb] at he
    | some b =>
      rw [hb] at he
      exact ⟨b, List.mem_of_getElem? hb, he⟩

/-- Whom a call pays, and the fee, as its event says. -/
def payout : {m : Movement} → Call m → Option Address × Option UInt256
  | .opening, _ => (none, none)
  | .deposit, _ => (none, none)
  | .withdrawal, c => (some c.terms.destination, some c.terms.fee)

/-- A call that is performed appends its note and registers its hash. -/
theorem perform_eq_ok {c : Call m} (h : l.perform m c = .ok (hash, l')) :
    l.append m c.amount c.note c.key (payout c).1 (payout c).2 = .ok (hash, l') := by
  cases m with
  | opening => exact h
  | deposit =>
    simp only [perform] at h
    split at h
    · exact h
    · cases h
  | withdrawal =>
    simp only [perform] at h
    split at h
    · exact h
    · cases h

/-- The ledger with a call used up. -/
def used (l : Ledger) (n : Nat) : Ledger := { l with encoded := l.encoded.set n none }

/-- A transaction is refused, at most using up a call, or performs an encoded call. -/
theorem execute_cases (l : Ledger) (tx : TransactionRequest) :
    (∃ reason, (l.execute tx).1 = .error reason ∧
      ((l.execute tx).2 = l ∨ ∃ n, (l.execute tx).2 = l.used n)) ∨
    ∃ n m c hash l', callNumber? tx.data = some n ∧ l.call? n = some ⟨m, c⟩ ∧
      (l.used n).perform m c = .ok (hash, l') ∧ l.execute tx = (.ok hash, l') := by
  by_cases htarget : tx.target = address
  · cases hn : callNumber? tx.data with
    | none => exact .inl ⟨"malformed calldata", by simp [execute, htarget, hn]⟩
    | some n =>
      cases hc : l.call? n with
      | none => exact .inl ⟨"unknown or already executed calldata", by simp [execute, htarget, hn, hc]⟩
      | some c =>
        obtain ⟨m, c⟩ := c
        by_cases hvalue : tx.value = m.attached c.amount
        · cases hp : (l.used n).perform m c with
          | error reason =>
            have he : l.execute tx = (.error reason, l.used n) := by
              rw [used] at hp
              simp [execute, htarget, hn, hc, hvalue, hp, used]
            exact .inl ⟨reason, by rw [he], .inr ⟨n, by rw [he]⟩⟩
          | ok r =>
            obtain ⟨hash, l'⟩ := r
            refine .inr ⟨n, m, c, hash, l', rfl, hc, hp, ?_⟩
            rw [used] at hp
            simp [execute, htarget, hn, hc, hvalue, hp]
        · have he : l.execute tx = (.error ("attached value " ++ tx.value.text ++ " does not match "
              ++ (m.attached c.amount).text), l.used n) := by
            simp [execute, htarget, hn, hc, hvalue, used]
          exact .inl ⟨_, by rw [he], .inr ⟨n, by rw [he]⟩⟩
  · exact .inl ⟨"transaction is not addressed to the shielder", by simp [execute, htarget]⟩

/-! ## Growing -/

theorem grows_append (h : l.append m amount note key destination fee = .ok (hash, l')) :
    Grows l l' := by
  obtain ⟨-, -, rfl⟩ := append_eq_ok h
  exact ⟨List.prefix_append _ _, Nat.le_refl _, fun _ _ _ hc => hc⟩

theorem grows_used (l : Ledger) (n : Nat) : Grows l (l.used n) where
  blocks := List.prefix_refl _
  encoded := by simp [used]
  call k _ c hc := by
    simp only [call?, used, List.getElem?_set] at hc
    split at hc
    · split at hc <;> simp at hc
    · exact hc

theorem grows_execute (l : Ledger) (tx : TransactionRequest) : Grows l (l.execute tx).2 := by
  rcases execute_cases l tx with ⟨_, -, he | ⟨n, he⟩⟩ | ⟨n, m, c, hash, l', -, -, hp, he⟩
  · rw [he]
    exact .refl l
  · rw [he]
    exact grows_used l n
  · rw [he]
    exact (grows_used l n).trans (grows_append (perform_eq_ok hp))

theorem encode_eq_ok {version : ContractVersion} {c : Call m} {data : Bytes}
    (h : l.encode m version c = .ok (data, l')) :
    version = l.version ∧ ∃ c', checkedCall version m c = .ok c' ∧
      data = Bytes.ofNatBE 8 l.encoded.length ∧
      l' = { l with encoded := l.encoded ++ [some ⟨m, c'⟩] } := by
  unfold encode at h
  cases hv : l.checkVersion version with
  | error e =>
    rw [hv] at h
    cases h
  | ok u =>
    cases hc : checkedCall version m c with
    | error e =>
      rw [hv, hc] at h
      cases h
    | ok c' =>
      rw [hv, hc] at h
      obtain ⟨hdata, hl⟩ := Prod.mk.inj (Except.ok.inj h)
      refine ⟨?_, c', rfl, hdata.symm, hl.symm⟩
      unfold checkVersion at hv
      split at hv
      case isTrue hv' => exact hv'
      case isFalse => cases hv

theorem grows_encode {version : ContractVersion} {c : Call m} {data : Bytes}
    (h : l.encode m version c = .ok (data, l')) : Grows l l' := by
  obtain ⟨-, c', -, -, rfl⟩ := encode_eq_ok h
  refine ⟨List.prefix_refl _, by simp, fun n hn c hc => ?_⟩
  simpa [call?, List.getElem?_append_left hn] using hc

theorem grows_answer (l : Ledger) (q : ContractQuery) : Grows l (l.answer q).2 := by
  cases q with
  | path index =>
    simp only [answer, path?]
    cases l.leaves[index.toNat]? <;> exact .of_eq rfl rfl
  | encode m version sender c =>
    have hcalls : Grows l { l with calls := l.calls + 1 } := .of_eq rfl rfl
    simp only [answer]
    cases he : ({ l with calls := l.calls + 1 } : Ledger).encode m version c with
    | error e => exact hcalls
    | ok r => exact hcalls.trans (grows_encode he)
  | rate k => cases k <;> exact .of_eq rfl rfl
  | _ => exact .of_eq rfl rfl

/-- How a relayer asks for the encoding of a withdrawal. -/
def relayedQuery (r : RelayRequest) : ContractQuery :=
  .encode .withdrawal r.version relayerAddress (World.relayedCall r)

/-- A relayer has no data to execute, or executes what the ledger has encoded. -/
theorem relay_cases (r : RelayRequest) (l : Ledger) :
    (∃ e, World.relay r l = (.error e, (l.answer (relayedQuery r)).2)) ∨
      ∃ tx, (l.answer (relayedQuery r)).1 = .ok tx.data ∧
        World.relay r l = (((l.answer (relayedQuery r)).2.execute tx).1.mapError .response,
          ((l.answer (relayedQuery r)).2.execute tx).2) := by
  unfold World.relay
  split
  case h_1 e l' he =>
    have hanswer : l.answer (relayedQuery r) = (.error e, l') := he
    exact .inl ⟨World.relayedFailure e, by rw [hanswer]⟩
  case h_2 data l' he =>
    have hanswer : l.answer (relayedQuery r) = (.ok data, l') := he
    refine .inr ⟨⟨relayerAddress, address, data, 0⟩, by rw [hanswer], ?_⟩
    rw [hanswer]

theorem grows_relay (r : RelayRequest) (l : Ledger) : Grows l (World.relay r l).2 := by
  have ha := grows_answer l (relayedQuery r)
  rcases relay_cases r l with ⟨e, hr⟩ | ⟨tx, -, hr⟩
  · rw [hr]
    exact ha
  · rw [hr]
    exact ha.trans (grows_execute _ tx)

/-! ## Encoded calls -/

/-- The data has been handed out for the call: it brings the call as it was checked to the ledger, or no
call any more. -/
def Encodes (l : Ledger) (version : ContractVersion) {m : Movement} (c : Call m) (data : Bytes) :
    Prop :=
  ∃ n < l.encoded.length, callNumber? data = some n ∧ ∃ c', checkedCall version m c = .ok c' ∧
    ∀ d, l.call? n = some d → d = ⟨m, c'⟩

theorem Encodes.mono {version : ContractVersion} {c : Call m} {data : Bytes}
    (h : l.Encodes version c data) (hg : l.Grows l') : l'.Encodes version c data := by
  obtain ⟨n, hn, hdata, c', hc, hcall⟩ := h
  refine ⟨n, Nat.lt_of_lt_of_le hn hg.encoded, hdata, c', hc, fun d hd => ?_⟩
  exact hcall d (hg.call n hn d hd)

theorem callNumber?_ofNatBE {n : Nat} (hn : n < UInt64.size) :
    callNumber? (Bytes.ofNatBE 8 n) = some n := by
  have hcount : Bytes.count 8 = UInt64.size := rfl
  rw [callNumber?, ← FixedBytes.toList_ofNatBE, Bytes.toFixed?_toList, Option.map_some,
    FixedBytes.toNatBE_ofNatBE, hcount, Nat.mod_eq_of_lt hn]

/-- A call that the ledger has encoded is brought to it by its data. -/
theorem encodes_answer {version : ContractVersion} {sender : Address} {c : Call m} {data : Bytes}
    (h : (l.answer (.encode m version sender c)).1 = .ok data)
    (hlen : (l.answer (.encode m version sender c)).2.encoded.length ≤ UInt64.size) :
    (l.answer (.encode m version sender c)).2.Encodes version c data := by
  simp only [answer] at h hlen ⊢
  cases he : ({ l with calls := l.calls + 1 } : Ledger).encode m version c with
  | error e =>
    rw [he] at h
    cases h
  | ok r =>
    obtain ⟨data', l'⟩ := r
    rw [he] at h hlen
    obtain rfl : data' = data := Except.ok.inj h
    obtain ⟨-, c', hc, rfl, rfl⟩ := encode_eq_ok he
    have hn : l.encoded.length < UInt64.size := by
      rw [List.length_append] at hlen
      exact hlen
    refine ⟨l.encoded.length, by simp, callNumber?_ofNatBE hn, c', hc, fun d hd => ?_⟩
    simpa [call?, eq_comm] using hd

/-- Checking a call leaves the amount, the note and the registered hash. -/
theorem checkedCall_eq_ok {version : ContractVersion} {c c' : Call m}
    (h : checkedCall version m c = .ok c') :
    c'.amount = c.amount ∧ c'.note = c.note ∧ c'.key = c.key := by
  cases m with
  | opening =>
    simp only [checkedCall] at h
    split at h
    · cases h
      exact ⟨rfl, rfl, rfl⟩
    · cases h
  | deposit =>
    simp only [checkedCall] at h
    split at h
    · cases h
      exact ⟨rfl, rfl, rfl⟩
    · cases h
  | withdrawal =>
    simp only [checkedCall] at h
    split at h
    · cases h
    · split at h
      · cases h
        exact ⟨rfl, rfl, rfl⟩
      · cases h

/-! ## What happens on the ledger -/

/-- What can happen on the ledger, short of repeating an event. -/
inductive Operation where
  | ask (q : ContractQuery)
  | execute (tx : TransactionRequest)
  /-- An account is opened without a call. -/
  | register (id : Scalar) (amount : UInt256)
  /-- A leaf is appended without an event. -/
  | pushLeaf (leaf : Scalar)
  /-- The rates of the protocol fees are set. -/
  | setRates (deposit withdrawal : UInt256)
  /-- A version is deployed. -/
  | setVersion (version : ContractVersion)

/-- The ledger after an operation. -/
def Operation.apply : Operation → Ledger → Ledger
  | .ask q, l => (l.answer q).2
  | .execute tx, l => (l.execute tx).2
  | .register id amount, l =>
    match l.register id amount with
    | .ok (_, l') => l'
    | .error _ => l
  | .pushLeaf leaf, l => (l.pushLeaf leaf).2
  | .setRates deposit withdrawal, l => { l with depositRate := deposit, withdrawalRate := withdrawal }
  | .setVersion version, l => { l with version }

/-- An account is opened if the hash of its identifier is not registered. -/
theorem apply_register {id : Scalar} (hnew : l.nullifierBlock? (Simulation.hash [id]) = none) :
    (Operation.register id amount).apply l = { l with
      leaves := l.leaves ++ [Simulation.note id (secrets id 0) (.ofUInt256 amount)]
      blocks := l.blocks ++ [⟨Simulation.hash [id], [l.nextEvent .opening amount
        (Simulation.note id (secrets id 0) (.ofUInt256 amount)) none none]⟩] } := by
  simp only [Operation.apply, register]
  rw [append_ok hnew]
  rfl

theorem grows_apply (o : Operation) (l : Ledger) : Grows l (o.apply l) := by
  cases o with
  | ask q => exact grows_answer l q
  | execute tx => exact grows_execute l tx
  | register id amount =>
    simp only [Operation.apply, register]
    cases ha : l.append .opening amount ((registered id amount).note?.getD 0) (Simulation.hash [id])
        none none with
    | error reason => exact .refl l
    | ok r => exact grows_append ha
  | pushLeaf leaf => exact .of_eq rfl rfl
  | setRates deposit withdrawal => exact .of_eq rfl rfl
  | setVersion version => exact .of_eq rfl rfl

/-! ## Look-ups -/

/-- A hash that is registered stays registered in its block. -/
theorem Grows.nullifierBlock? (h : Grows l l') {block : UInt64}
    (hb : l.nullifierBlock? key = some block) : l'.nullifierBlock? key = some block := by
  obtain ⟨bs, hbs⟩ := h.blocks
  unfold Ledger.nullifierBlock? at hb ⊢
  rw [← hbs, List.findIdx?_append]
  cases hi : l.blocks.findIdx? (·.nullifierHash = key) with
  | none =>
    rw [hi] at hb
    cases hb
  | some i =>
    rw [hi] at hb
    exact hb

/-- The events of a block never change. -/
theorem Grows.events (h : Grows l l') {block : UInt64} (hne : l.events block ≠ []) :
    l'.events block = l.events block := by
  obtain ⟨bs, hbs⟩ := h.blocks
  unfold Ledger.events Ledger.block? at hne ⊢
  by_cases h0 : block = 0
  · simp [h0] at hne
  · rw [if_neg h0] at hne ⊢
    rw [if_neg h0, ← hbs]
    cases hi : l.blocks[block.toNat - 1]? with
    | none => simp [hi] at hne
    | some b =>
      have hlt := (List.getElem?_eq_some_iff.1 hi).1
      rw [List.getElem?_append_left hlt, hi]

end Simulation.Ledger

end ShieldedWallet
