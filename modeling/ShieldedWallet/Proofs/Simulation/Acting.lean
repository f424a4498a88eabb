import ShieldedWallet.Proofs.Simulation.Standing

/-!
# Runs of the ledger

A run is a list of acts, which are operations and repeated events. An act adds leaves at most, or one
leaf together with the block of its event, or one more copy of the newest event. The hash that a block
registers is the one of the transaction that was accepted in it, and a call is gone for ever once a
transaction has brought it.
-/

namespace ShieldedWallet.Simulation.Ledger

/-- What can happen on the ledger. -/
inductive Act where
  | operation (o : Operation)
  | repeatLastEvent

/-- The ledger after an act. -/
def Act.apply : Act → Ledger → Ledger
  | .operation o, l => o.apply l
  | .repeatLastEvent, l => l.repeatLastEvent

/-- The ledger after a run. -/
def after (l : Ledger) : List Act → Ledger
  | [] => l
  | act :: acts => (act.apply l).after acts

/-- What is found at the acts of a run, each of them on the ledger that it meets. -/
def collect {α : Type} (f : Ledger → Act → Option α) : Ledger → List Act → List α
  | _, [] => []
  | l, act :: acts => (f l act).toList ++ collect f (act.apply l) acts

variable {l l' : Ledger} {tx : TransactionRequest} {n : Nat} {m : Movement} {c : Call m}

theorem after_append (l : Ledger) (acts acts' : List Act) :
    l.after (acts ++ acts') = (l.after acts).after acts' := by
  induction acts generalizing l with
  | nil => rfl
  | cons act acts ih => exact ih (act.apply l)

theorem evolves_act (act : Act) (l : Ledger) : l.Evolves (act.apply l) := by
  cases act with
  | operation o => exact Evolves.refl.apply o
  | repeatLastEvent => exact Evolves.refl.repeatLastEvent

theorem evolves_after (l : Ledger) (acts : List Act) : l.Evolves (l.after acts) := by
  induction acts generalizing l with
  | nil => exact .refl
  | cons act acts ih => exact (evolves_act act l).trans (ih (act.apply l))

/-! ## Transactions -/

/-- The call that a transaction brings to the ledger, with its number. -/
def brought? (l : Ledger) (tx : TransactionRequest) : Option (Nat × EncodedCall) :=
  if tx.target = address then (callNumber? tx.data).bind fun n => (l.call? n).map fun c => (n, c)
  else none

theorem brought?_eq_some_iff {call : EncodedCall} : l.brought? tx = some (n, call) ↔
    tx.target = address ∧ callNumber? tx.data = some n ∧ l.call? n = some call := by
  unfold brought?
  by_cases ht : tx.target = address
  · rw [if_pos ht, and_iff_right ht, Option.bind_eq_some_iff]
    constructor
    · rintro ⟨k, hk, hc⟩
      obtain ⟨call', hcall, heq⟩ := Option.map_eq_some_iff.1 hc
      obtain ⟨rfl, rfl⟩ := Prod.mk.inj heq
      exact ⟨hk, hcall⟩
    · rintro ⟨hk, hc⟩
      exact ⟨n, hk, by rw [hc]; rfl⟩
  · simp [ht]

theorem brought?_eq_none (hn : callNumber? tx.data = some n) (h : l.call? n = none) :
    l.brought? tx = none := by
  unfold brought?
  rw [hn]
  simp [h]

/-- A transaction that brings no call is refused, and nothing happens. -/
theorem execute_of_brought?_none (h : l.brought? tx = none) :
    ∃ reason, l.execute tx = (.error reason, l) := by
  by_cases ht : tx.target = address
  · rw [brought?, if_pos ht] at h
    cases hn : callNumber? tx.data with
    | none => exact ⟨"malformed calldata", by simp [execute, ht, hn]⟩
    | some n =>
      cases hc : l.call? n with
      | none => exact ⟨"unknown or already executed calldata", by simp [execute, ht, hn, hc]⟩
      | some call => simp [hn, hc] at h
  · exact ⟨"transaction is not addressed to the shielder", by simp [execute, ht]⟩

/-- A transaction that brings a call uses it up. If the attached value is right, the call is performed. -/
theorem execute_of_brought? (h : l.brought? tx = some (n, ⟨m, c⟩)) :
    ((tx.value = m.attached c.amount → ∃ reason, (l.used n).perform m c = .error reason) ∧
      ∃ reason, l.execute tx = (.error reason, l.used n)) ∨
    tx.value = m.attached c.amount ∧ ∃ hash l', (l.used n).perform m c = .ok (hash, l') ∧
      l.execute tx = (.ok hash, l') := by
  obtain ⟨ht, hn, hc⟩ := brought?_eq_some_iff.1 h
  by_cases hvalue : tx.value = m.attached c.amount
  · cases hp : (l.used n).perform m c with
    | error reason =>
      refine .inl ⟨fun _ => ⟨reason, rfl⟩, reason, ?_⟩
      rw [used] at hp
      simp [execute, ht, hn, hc, hvalue, hp, used]
    | ok r =>
      obtain ⟨hash, l'⟩ := r
      refine .inr ⟨hvalue, hash, l', rfl, ?_⟩
      rw [used] at hp
      simp [execute, ht, hn, hc, hvalue, hp]
  · refine .inl ⟨fun hvalue' => absurd hvalue' hvalue, ?_⟩
    simp [execute, ht, hn, hc, hvalue, used]

/-! ## Accepted transactions -/

/-- The hash that an act registers, being that of an accepted transaction or of an opened account. -/
def registered? (l : Ledger) : Act → Option Scalar
  | .operation (.execute tx) =>
    match (l.execute tx).1 with
    | .ok _ => (l.brought? tx).map fun (_, c) => c.call.key
    | .error _ => none
  | .operation (.register id amount) =>
    match l.register id amount with
    | .ok _ => some (Simulation.hash [id])
    | .error _ => none
  | _ => none

/-- What an act does to the leaves and the blocks, and the hash that it registers. -/
inductive Effect (l : Ledger) : Option Scalar → Ledger → Prop
  | leaves {l' : Ledger} (hl : l.leaves <+: l'.leaves) (hb : l'.blocks = l.blocks) : Effect l none l'
  | event {l' : Ledger} {key : Scalar} {e : NoteEvent} (hnew : ∀ b ∈ l.blocks, b.nullifierHash ≠ key)
      (hl : l'.leaves = l.leaves ++ [e.note]) (hb : l'.blocks = l.blocks ++ [⟨key, [e]⟩])
      (hi : e.noteIndex = .ofNat l.leaves.length) (hn : e.block = .ofNat (l.blocks.length + 1)) :
      Effect l (some key) l'
  /-- The newest block has its last event once more. -/
  | copy {l' : Ledger} {bs : List Block} {b : Block} (hl : l'.leaves = l.leaves)
      (hb : l.blocks = bs ++ [b]) (hb' : l'.blocks = bs ++ [b.repeated]) : Effect l none l'

theorem effect_append {amount : UInt256} {note key : Scalar} {destination : Option Address}
    {fee : Option UInt256} {hash : Hash256}
    (h : l.append m amount note key destination fee = .ok (hash, l')) : l.Effect (some key) l' := by
  obtain ⟨hnew, -, rfl⟩ := append_eq_ok h
  exact .event (e := l.nextEvent m amount note destination fee) hnew rfl rfl rfl rfl

theorem effect_execute (l : Ledger) (tx : TransactionRequest) :
    l.Effect (l.registered? (.operation (.execute tx))) (l.execute tx).2 := by
  have hquiet : ∀ k, l.Effect none (l.used k) := fun k => .leaves (List.prefix_refl _) rfl
  cases hbrought : l.brought? tx with
  | none =>
    obtain ⟨reason, he⟩ := execute_of_brought?_none hbrought
    simp only [registered?, he]
    exact .leaves (List.prefix_refl _) rfl
  | some nc =>
    obtain ⟨n, m, c⟩ := nc
    rcases execute_of_brought? hbrought with ⟨-, reason, he⟩ | ⟨-, hash, l', hp, he⟩
    · simp only [registered?, he]
      exact hquiet n
    · simp only [registered?, he, hbrought, Option.map_some]
      have happended := effect_append (perform_eq_ok hp)
      cases happended with
      | event hnew hl hb hi hn => exact .event hnew hl hb hi hn

theorem effect_register (l : Ledger) (id : Scalar) (amount : UInt256) :
    l.Effect (l.registered? (.operation (.register id amount)))
      ((Operation.register id amount).apply l) := by
  simp only [registered?, Operation.apply, register]
  cases ha : l.append .opening amount ((registered id amount).note?.getD 0) (Simulation.hash [id])
      none none with
  | error reason => exact .leaves (List.prefix_refl _) rfl
  | ok r => exact effect_append ha

theorem blocks_repeatLastEvent {bs : List Block} {b : Block} (hb : l.blocks = bs ++ [b]) :
    l.repeatLastEvent.blocks = bs ++ [b.repeated] := by
  simp [repeatLastEvent, hb, List.modify_eq_set_getElem?]

@[simp] theorem leaves_repeatLastEvent (l : Ledger) : l.repeatLastEvent.leaves = l.leaves :=
  rfl

@[simp] theorem blocks_pushLeaf (l : Ledger) (leaf : Scalar) : (l.pushLeaf leaf).2.blocks = l.blocks :=
  rfl

@[simp] theorem leaves_pushLeaf (l : Ledger) (leaf : Scalar) :
    (l.pushLeaf leaf).2.leaves = l.leaves ++ [leaf] :=
  rfl

theorem effect_repeatLastEvent (l : Ledger) : l.Effect none l.repeatLastEvent := by
  rcases List.eq_nil_or_concat l.blocks with hb | ⟨bs, b, hb⟩
  · refine .leaves (List.prefix_refl _) ?_
    simp [repeatLastEvent, hb]
  · rw [List.concat_eq_append] at hb
    exact .copy (leaves_repeatLastEvent l) hb (blocks_repeatLastEvent hb)

theorem effect_act (act : Act) (l : Ledger) : l.Effect (l.registered? act) (act.apply l) := by
  cases act with
  | repeatLastEvent => exact effect_repeatLastEvent l
  | operation o =>
    cases o with
    | execute tx => exact effect_execute l tx
    | register id amount => exact effect_register l id amount
    | ask q =>
      have hleaves := leaves_answer l q
      have hblocks := (unchanged_answer l q).1
      exact .leaves (hleaves ▸ List.prefix_refl _) hblocks
    | pushLeaf leaf => exact .leaves (List.prefix_append _ _) rfl
    | setRates deposit withdrawal => exact .leaves (List.prefix_refl _) rfl
    | setVersion version => exact .leaves (List.prefix_refl _) rfl

/-! ## Registered hashes -/

/-- The registered hashes, in the order of their blocks. -/
def hashes (l : Ledger) : List Scalar := l.blocks.map (·.nullifierHash)

theorem Effect.hashes_eq {key? : Option Scalar} (h : l.Effect key? l') :
    l'.hashes = l.hashes ++ key?.toList := by
  unfold hashes
  cases h with
  | leaves hl hb => simp [hb]
  | event hnew hl hb hi hn => simp [hb]
  | copy hl hb hb' => simp [hb, hb', Block.repeated]

/-- A run registers exactly the hashes of the transactions that it accepts. -/
theorem hashes_after (l : Ledger) (acts : List Act) :
    (l.after acts).hashes = l.hashes ++ collect registered? l acts := by
  induction acts generalizing l with
  | nil => simp [after, collect]
  | cons act acts ih => rw [after, ih, (effect_act act l).hashes_eq, collect, List.append_assoc]

/-! ## Used calls -/

/-- The number of the call that an act uses up. -/
def taken? (l : Ledger) : Act → Option Nat
  | .operation (.execute tx) => (l.brought? tx).map Prod.fst
  | _ => none

/-- Calls keep their numbers until they are used up. -/
theorem call?_act (act : Act) (l : Ledger) : l.encoded.length ≤ (act.apply l).encoded.length ∧
    ∀ n < l.encoded.length, ∀ call, (act.apply l).call? n = some call → l.call? n = some call := by
  cases act with
  | operation o => exact ⟨(grows_apply o l).encoded, (grows_apply o l).call⟩
  | repeatLastEvent => exact ⟨Nat.le_refl _, fun n _ call h => h⟩

theorem call?_after (l : Ledger) (acts : List Act) :
    l.encoded.length ≤ (l.after acts).encoded.length ∧
    ∀ n < l.encoded.length, ∀ call, (l.after acts).call? n = some call → l.call? n = some call := by
  induction acts generalizing l with
  | nil => exact ⟨Nat.le_refl _, fun n _ call h => h⟩
  | cons act acts ih =>
    obtain ⟨hlength, hcall⟩ := call?_act act l
    obtain ⟨hlength', hcall'⟩ := ih (act.apply l)
    refine ⟨Nat.le_trans hlength hlength', fun n hn call h => ?_⟩
    exact hcall n hn call (hcall' n (Nat.lt_of_lt_of_le hn hlength) call h)

/-- Whatever happens afterwards, a call that is gone does not come back. -/
theorem call?_after_eq_none (hn : n < l.encoded.length) (h : l.call? n = none) (acts : List Act) :
    (l.after acts).call? n = none := by
  by_contra hne
  obtain ⟨call, hcall⟩ := Option.ne_none_iff_exists'.1 hne
  rw [(call?_after l acts).2 n hn call hcall] at h
  cases h

theorem lt_of_call?_eq_some {call : EncodedCall} (h : l.call? n = some call) :
    n < l.encoded.length := by
  obtain ⟨slot, hslot, -⟩ := Option.bind_eq_some_iff.1 h
  exact (List.getElem?_eq_some_iff.1 hslot).1

theorem call?_used (l : Ledger) (n : Nat) : (l.used n).call? n = none := by
  unfold call? used
  rw [List.getElem?_set_self']
  cases l.encoded[n]? <;> rfl

/-- A call that an act uses up was there before and is gone afterwards. -/
theorem call?_of_taken? {act : Act} (h : l.taken? act = some n) :
    (∃ call, l.call? n = some call) ∧ (act.apply l).call? n = none := by
  cases act with
  | repeatLastEvent => cases h
  | operation o =>
    cases o with
    | execute tx =>
      obtain ⟨⟨n', m, c⟩, hbrought, rfl⟩ := Option.map_eq_some_iff.1 h
      refine ⟨⟨_, (brought?_eq_some_iff.1 hbrought).2.2⟩, ?_⟩
      show (l.execute tx).2.call? n' = none
      rcases execute_of_brought? hbrought with ⟨-, reason, he⟩ | ⟨-, hash, l', hp, he⟩
      · rw [he]
        exact call?_used l n'
      · obtain ⟨-, -, rfl⟩ := append_eq_ok (perform_eq_ok hp)
        rw [he]
        exact call?_used l n'
    | _ => cases h

/-- A transaction that has used up a call brings none when it is sent again. -/
theorem brought?_of_taken? (h : l.taken? (.operation (.execute tx)) = some n) :
    (l.execute tx).2.brought? tx = none := by
  have hgone : (l.execute tx).2.call? n = none := (call?_of_taken? h).2
  obtain ⟨⟨n', call⟩, hbrought, rfl⟩ := Option.map_eq_some_iff.1 h
  obtain ⟨-, hn, -⟩ := brought?_eq_some_iff.1 hbrought
  exact brought?_eq_none hn hgone

theorem apply_of_brought?_none (h : l.brought? tx = none) :
    (Act.operation (.execute tx)).apply l = l := by
  obtain ⟨reason, he⟩ := execute_of_brought?_none h
  exact congrArg Prod.snd he

/-- A call that is gone is never used up again. -/
theorem not_mem_taken {acts : List Act} (hn : n < l.encoded.length) (h : l.call? n = none) :
    n ∉ collect taken? l acts := by
  induction acts generalizing l with
  | nil => simp [collect]
  | cons act acts ih =>
    have hgone : (act.apply l).call? n = none := call?_after_eq_none hn h [act]
    have hrest := ih (Nat.lt_of_lt_of_le hn (call?_act act l).1) hgone
    rw [collect, List.mem_append, not_or, Option.mem_toList]
    refine ⟨fun htaken => ?_, hrest⟩
    obtain ⟨⟨call, hsome⟩, -⟩ := call?_of_taken? htaken
    rw [hsome] at h
    cases h

/-- No call is used up twice. -/
theorem nodup_taken (l : Ledger) (acts : List Act) : (collect taken? l acts).Nodup := by
  induction acts generalizing l with
  | nil => exact List.nodup_nil
  | cons act acts ih =>
    rw [collect]
    cases htaken : l.taken? act with
    | none => exact ih (act.apply l)
    | some n =>
      obtain ⟨⟨call, hcall⟩, hgone⟩ := call?_of_taken? htaken
      have hn : n < (act.apply l).encoded.length :=
        Nat.lt_of_lt_of_le (lt_of_call?_eq_some hcall) (call?_act act l).1
      exact List.nodup_cons.2 ⟨not_mem_taken hn hgone, ih (act.apply l)⟩

end ShieldedWallet.Simulation.Ledger
