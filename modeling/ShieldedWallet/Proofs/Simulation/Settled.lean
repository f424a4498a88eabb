import ShieldedWallet.Proofs.Simulation.Parties

/-!
# What the wallets of an account know

Whatever a wallet has read may be out of date, but it never becomes wrong: what it has looked up stays
true of the ledger, what it has loaded stays a state of the chain, and what the ledger has encoded for
it is executed as such or not at all. So the states that wallets store are states of the chain, and the
calls that they have submitted continue states of the chain.
-/

namespace ShieldedWallet

open History (Step Follows lastOf)

theorem Query.isActing_of_not_isQuiet {q : Query} (h : ¬ q.IsQuiet) : q.IsActing := by
  cases q with
  | submit tx => trivial
  | relayer q =>
    cases q with
    | submit r => trivial
    | _ => exact absurd trivial h
  | _ => exact absurd trivial h

namespace Simulation

/-! ## What the exchanges of a wallet say -/

/-- The call continues a state of the chain. -/
def ContinuesChain (o : Owner) (xs : List Step) {m : Movement} (c : Call m) : Prop :=
  ∃ k ≤ xs.length, c.Continues simulated o.version (stateAt o.id xs k)

/-- What was looked up is read from some earlier ledger, what was loaded is a state of the chain, and
what was encoded is known to the ledger. -/
structure Stands (o : Owner) (p : Party) (l : Ledger) (xs : List Step) (x : Exchange surroundings) :
    Prop where
  lookup : x.query.IsLookup → ∃ l' : Ledger, l'.Grows l ∧ x.answer = reading simulated l' x.query
  loaded : ∀ item, x = ⟨.load p.storageKey, .ok item⟩ →
    ∃ k ≤ xs.length, (o.register p).read item = .ok (stateAt o.id xs k)
  encoded : ∀ m version sender (c : Call m) data,
    x = ⟨.contract (.encode m version sender c), .ok data⟩ → l.Encodes version c data

variable {o : Owner} {N : Nat} {parties : List Party} {p : Party} {l l' : Ledger} {w w' : World}
  {xs ys : List Step} {x : Exchange surroundings} {m : Movement} {q : Query}

theorem ContinuesChain.append {c : Call m} (h : ContinuesChain o xs c) :
    ContinuesChain o (xs ++ ys) c := by
  obtain ⟨k, hk, hc⟩ := h
  refine ⟨k, by rw [List.length_append]; omega, ?_⟩
  rwa [stateAt_append hk]

theorem Stands.mono (h : Stands o p l xs x) (hg : l.Grows l') : Stands o p l' (xs ++ ys) x where
  lookup hx := by
    obtain ⟨l₁, hg₁, ha⟩ := h.lookup hx
    exact ⟨l₁, hg₁.trans hg, ha⟩
  loaded item hx := by
    obtain ⟨k, hk, hread⟩ := h.loaded item hx
    refine ⟨k, by rw [List.length_append]; omega, ?_⟩
    rwa [stateAt_append hk]
  encoded m version sender c data hx := (h.encoded m version sender c data hx).mono hg

/-- The call of an order to send it continues a state of the chain. -/
def GivenCall (o : Owner) (xs : List Step) : Order → Prop
  | .send c _ => ContinuesChain o xs c.call
  | .relay c => ContinuesChain o xs c.call
  | _ => True

/-- The question has a call submitted that continues a state of the chain. -/
inductive Sends (o : Owner) (l : Ledger) (xs : List Step) : Query → Prop where
  /-- The call is encoded in a transaction. -/
  | submit {m : Movement} {c : Calldata m} {tx : TransactionRequest}
      (hc : ContinuesChain o xs c.call) (he : l.Encodes c.version c.call tx.data) :
      Sends o l xs (.submit tx)
  /-- The call is left to the relayer. -/
  | relay {c : Calldata .withdrawal} (hc : ContinuesChain o xs c.call) :
      Sends o l xs (.relayer (.submit c.relayRequest))

/-- Everything that a task rests on stands. -/
structure Task.Sound (o : Owner) (l : Ledger) (xs : List Step) (x : Task) : Prop where
  reaches : (x.order.program (o.wallet x.party)).run.Reaches x.trace x.rest
  stands : ∀ y ∈ x.trace, Stands o x.party l xs y
  given : GivenCall o xs x.order

namespace Task.Sound

variable {x : Task}

theorem mono (h : x.Sound o l xs) (hg : l.Grows l') : x.Sound o l' (xs ++ ys) where
  reaches := h.reaches
  stands y hy := (h.stands y hy).mono hg
  given := by
    have hgiven := h.given
    cases hx : x.order with
    | send c sender =>
      rw [hx] at hgiven
      exact ContinuesChain.append hgiven
    | relay c =>
      rw [hx] at hgiven
      exact ContinuesChain.append hgiven
    | _ => trivial

theorem answeredBy (h : x.Sound o l xs) : x.trace.AnsweredBy simulated := by
  intro q r hx
  obtain ⟨l', -, ha⟩ := (h.stands _ hx).lookup trivial
  exact ha

/-- A call that continues a loaded account continues a state of the chain. -/
theorem preparedIn (h : x.Sound o l xs) {c : Call m}
    (hc : c.PreparedIn simulated (o.wallet x.party) x.trace) : ContinuesChain o xs c := by
  obtain ⟨item, a, hmem, hread, hcont⟩ := hc
  obtain ⟨k, hk, hread'⟩ := (h.stands _ hmem).loaded item rfl
  obtain rfl : a = stateAt o.id xs k := Except.ok.inj (hread.symm.trans hread')
  exact ⟨k, hk, hcont⟩

/-- A call that was prepared continues a state of the chain. -/
theorem prepared (h : x.Sound o l xs) {c : Calldata m} (hx : x.rest = .done (.ok (some ⟨m, c⟩))) :
    ContinuesChain o xs c.call := by
  have hreaches := h.reaches
  rw [hx] at hreaches
  exact h.preparedIn (Order.yields_program hreaches h.answeredBy)

/-- A step that was found on the way is a step on the ledger. -/
theorem next (h : x.Sound o l xs) {t : Trace} {a b : Account} {e : NoteEvent} (ht : t ⊆ x.trace)
    (hn : (History.next? o.version a).run.Yields t (.ok (some (b, e)))) :
    Next simulated o.version l a e b :=
  next_of_yields hn fun y hy hl => (h.stands y (ht hy)).lookup hl

variable {next : q.Answer → Program surroundings Outcome}

/-- A wallet that acts stores in a pass, or has a call submitted that continues a state of the chain. -/
theorem acts (h : x.Sound o l xs) (hx : x.rest = .ask q next) (hq : q.IsActing) :
    (o.wallet x.party).sync.run.Asks x.trace q ∨ Sends o l xs q := by
  have hasks : (x.order.program (o.wallet x.party)).run.Asks x.trace q := ⟨next, hx ▸ h.reaches⟩
  rcases Order.asks_program hasks hq h.answeredBy with ⟨-, hsync⟩ | ⟨ht, hsend, hc⟩ | ⟨ht, hrelay, hc⟩
  · exact .inl hsync
  · obtain ⟨tx, rfl, hmem⟩ := Calldata.asks_send hsend hq
    have hencodes := (h.stands _ (ht.subset hmem)).encoded _ _ _ _ _ rfl
    rcases hc with hc | hc
    · exact .inr (.submit (h.preparedIn hc) hencodes)
    · have hgiven := h.given
      rw [hc] at hgiven
      exact .inr (.submit hgiven hencodes)
  · obtain rfl := Calldata.asks_relay hrelay
    rcases hc with hc | hc
    · exact .inr (.relay (h.preparedIn hc))
    · have hgiven := h.given
      rw [hc] at hgiven
      exact .inr (.relay hgiven)

theorem sends (h : x.Sound o l xs) (hx : x.rest = .ask q next) (hq : q.IsActing)
    (hquiet : ¬ q.IsQuiet) : Sends o l xs q := by
  rcases h.acts hx hq with hsync | hsends
  · exact absurd (Wallet.quiet_sync _ _ _ hsync) hquiet
  · exact hsends

/-- What a wallet stores is a state of the chain. -/
theorem stores {key : String} {item : Bytes}
    {next : Except StorageFailure Unit → Program surroundings Outcome} (h : x.Sound o l xs)
    (hx : x.rest = .ask (.store key item) next) (hc : Chain o.version N o.id l xs)
    (hd : Distinct N o.id) (hN : l.blocks.length ≤ N) :
    key = x.party.storageKey ∧
      ∃ k ≤ xs.length, (o.register x.party).read (some item) = .ok (stateAt o.id xs k) := by
  rcases h.acts hx trivial with hsync | hsends
  · obtain ⟨hkey, item', a, ys, y, hmem, hread, hy, rfl⟩ :=
      History.asks_pass (Action.asks_reporting hsync trivial) fun t a b e ht hn => h.next ht.subset hn
    obtain ⟨k, hk, hread'⟩ := (h.stands _ hmem).loaded item' rfl
    obtain rfl : a = stateAt o.id xs k := Except.ok.inj (hread.symm.trans hread')
    -- the walk of the pass begins at a state of the chain, so it goes through the next ones
    obtain ⟨hle, hlast⟩ := hc.walk_eq hd hN hk hy
    have hlast' : lastOf (stateAt o.id xs k) (ys ++ [y]) = y.account := by
      rw [History.lastOf_append, History.lastOf_cons, History.lastOf_nil]
    rw [hlast'] at hlast
    exact ⟨hkey, _, hle, by rw [hlast]; exact hc.read_item hle rfl⟩
  · cases hsends

end Task.Sound

/-! ## The world of the parties -/

/-- The steps are the chain of the account, and all parties store states of it. -/
structure Settled (o : Owner) (N : Nat) (parties : List Party) (w : World) (xs : List Step) :
    Prop where
  plain : w.Plain
  chain : Chain o.version N o.id w.ledger xs
  stored : ∀ p ∈ parties, ∃ k ≤ xs.length,
    (o.register p).read (w.storages p.storage p.storageKey) = .ok (stateAt o.id xs k)

namespace Settled

variable {c storage : Nat} {r : q.Answer}

/-- The chain may become longer while the storages stay. -/
theorem extend (h : Settled o N parties w xs) (hw : w'.Plain)
    (hc : Chain o.version N o.id w'.ledger (xs ++ ys)) (hs : w'.storages = w.storages) :
    Settled o N parties w' (xs ++ ys) where
  plain := hw
  chain := hc
  stored p hp := by
    obtain ⟨k, hk, hread⟩ := h.stored p hp
    refine ⟨k, by rw [List.length_append]; omega, ?_⟩
    rwa [stateAt_append hk, hs]

/-- What a party gets to know stands. -/
theorem stands (h : Settled o N parties w xs) (hp : p ∈ parties)
    (ha : World.answer p.number p.storage q w = (r, w'))
    (hE : w'.ledger.encoded.length ≤ UInt64.size) : Stands o p w'.ledger xs ⟨q, r⟩ where
  lookup hq := by
    have hanswer := (World.serves_answer p.number p.storage).lookup h.plain hq
    have hg := (World.serves_answer p.number p.storage).grows (q := q) h.plain
    rw [ha] at hanswer hg
    exact ⟨w.ledger, hg, hanswer⟩
  loaded item hx := by
    obtain ⟨rfl, hr⟩ := Exchange.mk.inj hx
    obtain rfl := eq_of_heq hr
    rw [h.plain.answer_load] at ha
    have hitem := Except.ok.inj (Prod.mk.inj ha).1
    rw [← hitem]
    exact h.stored p hp
  encoded m version sender c data hx := by
    obtain ⟨rfl, hr⟩ := Exchange.mk.inj hx
    obtain rfl := eq_of_heq hr
    rw [h.plain.answer_contract] at ha
    obtain ⟨hdata, rfl⟩ := Prod.mk.inj ha
    exact Ledger.encodes_answer hdata hE

theorem quiet (h : Settled o N parties w xs) (ha : World.answer c storage q w = (r, w'))
    (hq : q.IsQuiet) (hs : ∀ key item, q ≠ .store key item) : Settled o N parties w' xs := by
  have hw := (World.serves_answer c storage).stays (q := q) h.plain
  have hg := (World.serves_answer c storage).grows (q := q) h.plain
  have hstorages : (World.answer c storage q w).2.storages = w.storages := World.storages_answer w hs
  obtain ⟨hblocks, hversion⟩ := @World.Undisturbed.unchanged_answer c storage w h.plain.1 q hq
  rw [ha] at hw hg hstorages hblocks hversion
  have hchain := h.chain.quiet hg hversion hblocks
  rw [← List.append_nil xs] at hchain ⊢
  exact h.extend hw hchain hstorages

theorem store (h : Settled o N parties w xs) {item : Bytes} {r : Except StorageFailure Unit}
    (ha : World.answer p.number p.storage (.store p.storageKey item) w = (r, w'))
    (hitem : ∃ k ≤ xs.length, (o.register p).read (some item) = .ok (stateAt o.id xs k)) :
    Settled o N parties w' xs := by
  have hw := (World.serves_answer p.number p.storage).stays
    (q := .store p.storageKey item) h.plain
  rw [ha] at hw
  rw [h.plain.answer_store] at ha
  obtain ⟨-, rfl⟩ := Prod.mk.inj ha
  refine ⟨hw, h.chain, fun p' hp' => ?_⟩
  by_cases hplace : p'.storage = p.storage ∧ p'.storageKey = p.storageKey
  · -- two parties may share a storage: their registers read alike
    have hnew : (w.storeItem p.storage p.storageKey item).storages p'.storage p'.storageKey =
        some item := by
      simp [World.storeItem, World.setStorage, hplace]
    rw [hnew]
    exact hitem
  · have hold : (w.storeItem p.storage p.storageKey item).storages p'.storage p'.storageKey =
        w.storages p'.storage p'.storageKey := by
      by_cases hstorage : p'.storage = p.storage
      · have hkey : p'.storageKey ≠ p.storageKey := fun hkey => hplace ⟨hstorage, hkey⟩
        simp [World.storeItem, World.setStorage, hstorage, hkey]
      · simp [World.storeItem, World.setStorage, hstorage]
    rw [hold]
    exact h.stored p' hp'

/-- A call that continues a state of the chain and is submitted continues the last one, or is
refused. -/
theorem submit (h : Settled o N parties w xs) (hd : Distinct N o.id) (hN' : N < UInt64.size)
    (ha : World.answer c storage q w = (r, w')) (hN : w'.ledger.blocks.length ≤ N)
    (hE : w'.ledger.encoded.length ≤ UInt64.size) (hq : Sends o w.ledger xs q) :
    ∃ ys : List Step, Settled o N parties w' (xs ++ ys) ∧
      Exchange.accepted ⟨q, r⟩ = ys.map fun x => x.event.txHash := by
  have hw := (World.serves_answer c storage).stays (q := q) h.plain
  rw [ha] at hw
  cases hq with
  | @submit m call tx hcall hencodes =>
    obtain ⟨k, hk, hcont⟩ := hcall
    obtain ⟨sent, he⟩ := World.execute_eq w tx
    rw [h.plain.answer_submit, he] at ha
    obtain ⟨rfl, rfl⟩ := Prod.mk.inj ha
    obtain ⟨ys, hys, hhashes⟩ := h.chain.execute hd hN' hN hk hcont hencodes
    exact ⟨ys, h.extend hw hys rfl, hhashes⟩
  | @relay call hcall =>
    obtain ⟨k, hk, hcont⟩ := hcall
    rw [h.plain.answer_relayer] at ha
    obtain ⟨rfl, rfl⟩ := Prod.mk.inj ha
    obtain ⟨ys, hys, hhashes⟩ := h.chain.relay hd hN' hN hE hk hcont
    exact ⟨ys, h.extend hw hys rfl, hhashes⟩

theorem other (h : Settled o N parties w xs) {x : Ledger.Operation}
    (hv : (x.apply w.ledger).version = w.ledger.version)
    (hb : ∀ b ∈ (x.apply w.ledger).blocks.drop w.ledger.blocks.length, ¬ b.IsOf N o.id) :
    Settled o N parties { w with ledger := x.apply w.ledger } xs where
  plain := ⟨⟨h.plain.faults, h.plain.substitutes⟩, h.plain.link, h.plain.refusing⟩
  chain := h.chain.other (Ledger.grows_apply x w.ledger) hv hb
  stored := h.stored

/-- Whatever a wallet asks that carries out an order, the parties store states of the chain, which
becomes longer with each transaction of theirs that is accepted. -/
theorem answer {x : Task} {next : q.Answer → Program surroundings Outcome}
    (h : Settled o N parties w xs) (hx : x.Sound o w.ledger xs) (hrest : x.rest = .ask q next)
    (ha : World.answer x.party.number x.party.storage q w = (r, w')) (hd : Distinct N o.id)
    (hN' : N < UInt64.size) (hN : w'.ledger.blocks.length ≤ N)
    (hE : w'.ledger.encoded.length ≤ UInt64.size) :
    ∃ ys : List Step, Settled o N parties w' (xs ++ ys) ∧
      Exchange.accepted ⟨q, r⟩ = ys.map fun x => x.event.txHash := by
  have hg := (World.serves_answer x.party.number x.party.storage).grows (q := q) h.plain
  rw [ha] at hg
  have hNw := Nat.le_trans hg.blocks.length_le hN
  by_cases hq : q.IsQuiet
  · refine ⟨[], ?_, Exchange.accepted_of_isQuiet hq⟩
    rw [List.append_nil]
    by_cases hs : ∃ key item, q = .store key item
    · obtain ⟨key, item, rfl⟩ := hs
      obtain ⟨rfl, hitem⟩ := hx.stores hrest h.chain hd hNw
      exact h.store ha hitem
    · exact h.quiet ha hq fun key item hkey => hs ⟨key, item, hkey⟩
  · exact h.submit hd hN' ha hN hE (hx.sends hrest (Query.isActing_of_not_isQuiet hq) hq)

end Settled

end Simulation

end ShieldedWallet
