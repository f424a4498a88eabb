import ShieldedWallet.Proofs.Simulation.Moving
import ShieldedWallet.Proofs.Simulation.Parties
import ShieldedWallet.Proofs.Simulation.Refusing

/-!
# What becomes of an operation

The owner of an account has funds moved, or the account brought up to date. What becomes of that follows
from the steps of the account on the chain and from how many of them its wallet has kept: a movement is
refused, or it adds one step, and a pass keeps all steps. Nothing else on the ledger plays a part in it.
-/

namespace ShieldedWallet.Simulation

open History (Step Follows lastOf)

/-- An operation of a wallet that its owner waits for. -/
inductive Command where
  /-- To move funds into the account. -/
  | shield (amount : UInt256) (sender : Address)
  /-- To move funds out of the account through the relayer. -/
  | withdraw (amount fee : UInt256) (destination : Address)
  /-- To move funds out of the account without a relayer. -/
  | withdrawAlone (amount : UInt256) (destination sender : Address)
  /-- To bring the account up to date. -/
  | sync

/-- What an operation ends with if it succeeds. -/
inductive Reply where
  /-- A transaction was sent. -/
  | sent (txHash : Hash256)
  /-- So many transactions were missing. -/
  | found (n : Nat)

/-- What an operation ends with, and the transactions that the owner is told of meanwhile. -/
structure Report where
  result : Except Failure Reply
  /-- The transactions in their order. -/
  told : List Transaction

/-- What the wallet does. -/
def Command.program (w : Wallet) : Command → Action Reply
  | .shield amount sender => do
    let hash ← w.shield amount sender
    return .sent hash
  | .withdraw amount fee destination => do
    let hash ← w.withdraw amount fee destination
    return .sent hash
  | .withdrawAlone amount destination sender => do
    let hash ← w.withdrawAlone amount destination sender
    return .sent hash
  | .sync => do
    let n ← w.sync
    return .found n

/-- An operation that moves funds tells of no transaction. -/
theorem Command.confined_program {wallet : Wallet} {command : Command} (hc : command ≠ .sync) :
    (command.program wallet).run.Confined Query.IsOfMovement := by
  cases command with
  | shield amount sender =>
    exact Action.confined_bind (wallet.confined_shield amount sender) fun _ => Action.confined_pure _
  | withdraw amount fee destination =>
    exact Action.confined_bind (wallet.confined_withdraw amount fee destination)
      fun _ => Action.confined_pure _
  | withdrawAlone amount destination sender =>
    exact Action.confined_bind (wallet.confined_withdrawAlone amount destination sender)
      fun _ => Action.confined_pure _
  | sync => exact absurd rfl hc

/-! ## Attempts -/

/-- What a movement of funds comes to before anything is sent. -/
structure Attempt where
  movement : Movement
  amount : UInt256
  destination : Option Address
  fee : Option UInt256
  /-- Whether a call can be prepared, or what is said otherwise. -/
  verdict : Except Failure Unit
  /-- What is said if the prepared call is for another version than the deployed one. -/
  refusal : String → Failure

/-- What the wallet of an account attempts. -/
def Command.attempt? (version : ContractVersion) (a : Account) : Command → Option Attempt
  | .shield amount _ =>
    if a.nonce = 0 then
      some ⟨.opening, amount, none, none, openable version a amount, .contractVersion⟩
    else
      some ⟨.deposit, amount, none, none,
        spendable version .deposit a amount (.balanceOverflow a.balance amount), .contractVersion⟩
  | .withdraw amount fee destination =>
    some ⟨.withdrawal, amount, some destination, some fee, withdrawable version a amount fee,
      fun mismatch => .relayerVersion ("\"Version mismatch: " ++ mismatch ++ "\"")⟩
  | .withdrawAlone amount destination _ =>
    some ⟨.withdrawal, amount, some destination, some 0, withdrawable version a amount 0,
      .contractVersion⟩
  | .sync => none

/-- What becomes of an attempt of a wallet of `version` that has kept `k` steps out of `n`, on a ledger
of the version `deployed`. -/
def Attempt.settle (t : Attempt) (version deployed : ContractVersion) (k n : Nat) :
    Except Failure Unit :=
  match t.verdict with
  | .error e => .error e
  | .ok () =>
    if version ≠ deployed then .error (t.refusal (Ledger.mismatch version deployed))
    else if k ≠ n then .error (.submission t.movement "nullifier already spent")
    else .ok ()

theorem Attempt.settle_eq_ok {t : Attempt} {version deployed : ContractVersion} {k n : Nat}
    (h : t.settle version deployed k n = .ok ()) : version = deployed ∧ k = n := by
  unfold settle at h
  split at h
  · cases h
  · split at h
    · cases h
    · split at h
      · cases h
      · exact ⟨not_not.1 ‹_›, not_not.1 ‹_›⟩

variable {m : Movement} {c storage : Nat} {w w₁ w₂ w' : World}

/-- How a prepared call can be brought to the ledger: it is accepted if nothing is wrong with it, and
otherwise there is one thing said in each case. -/
structure Brings (c storage : Nat) (p : Calldata m) (x : Action Hash256) (refusal : String → Failure) :
    Prop where
  accepted : World.Delivers c storage p.version p.call x
  outdated : ∀ deployed, p.version ≠ deployed → World.Fails c storage (·.version = deployed) x
    (refusal (Ledger.mismatch p.version deployed))
  spent : World.Fails c storage (World.Spent p.version p.call) x
    (.submission m "nullifier already spent")

theorem brings_send (p : Calldata m) (sender : Address) :
    Brings c storage p (p.send sender) .contractVersion where
  accepted := World.delivers_send p sender
  outdated _ h := World.fails_send_outdated p sender h
  spent := World.fails_send_spent p sender

theorem brings_relay {p : Calldata .withdrawal} (hr : p.call.terms.relayer = relayerAddress) :
    Brings c storage p p.relay
      fun mismatch => .relayerVersion ("\"Version mismatch: " ++ mismatch ++ "\"") where
  accepted := World.delivers_relay hr
  outdated _ h := World.fails_relay_outdated p h
  spent := World.fails_relay_spent hr

/-! ## Kept steps -/

/-- After some operations on a new ledger there are at most as many blocks, leaves and encoded calls. -/
structure World.Within (n : Nat) (w : World) : Prop where
  plain : w.Plain
  indexed : w.ledger.Indexed
  blocks_le : w.ledger.blocks.length ≤ n
  leaves_le : w.ledger.leaves.length ≤ n
  encoded_le : w.ledger.encoded.length ≤ n

/-- The account has the steps `xs` on the chain, and the wallet of the party has kept the first `k` of
them. -/
structure Tracks (o : Owner) (p : Party) (N : Nat) (w : World) (xs : List Step) (k : Nat) : Prop where
  chain : Chain w.ledger.version N o.id w.ledger xs
  outdated : o.version ≠ w.ledger.version → xs = []
  kept_le : k ≤ xs.length
  stored_eq : w.storages p.storage p.storageKey =
    ((xs.take k).map fun x => (o.register p).item x.account).getLast?

variable {o : Owner} {p : Party} {N n k : Nat} {xs : List Step}

theorem stateAt_succ {id : Scalar} (hk : k < xs.length) : stateAt id xs (k + 1) = xs[k].account := by
  rw [stateAt, List.take_succ_eq_append_getElem hk, History.lastOf_append]
  rfl

theorem Chain.leads_at {version : ContractVersion} {id : Scalar} {l : Ledger}
    (h : Chain version N id l xs) (hk : k < xs.length) :
    xs[k].event.Leads (stateAt id xs k) xs[k].account := by
  have hx := h.follows_take (k + 1)
  rw [List.take_succ_eq_append_getElem hk] at hx
  exact (History.follows_append.1 hx).2.1

/-- The note of each of the states is the leaf that the state points to. -/
theorem Chain.placed {version : ContractVersion} {id : Scalar} {l : Ledger}
    (h : Chain version N id l xs) (hi : l.Indexed) (hk : k ≤ xs.length) :
    Placed l (stateAt id xs k) := by
  cases k with
  | zero => exact .inl rfl
  | succ k =>
    have hmem : ⟨searchHash id k, [xs[k].event]⟩ ∈ l.blocksOf N id := by
      rw [h.blocks_eq, List.mem_mapIdx]
      exact ⟨k, hk, rfl⟩
    have hleaf := hi _ (List.mem_filter.1 hmem).1 xs[k].event List.mem_cons_self
    obtain ⟨-, -, balance, -, haccount⟩ := h.leads_at hk
    rw [stateAt_succ hk, haccount]
    exact .inr ⟨_, _, rfl, rfl, hleaf⟩

theorem Shown.alike {holding : Holding} (h : Shown (World.oracle c storage w) holding) (hw : w.Plain)
    (hw₁ : w.Alike w₁) : Shown (World.oracle c storage w₁) holding where
  prover := hw₁.plain.oracle_prover
  path := by
    obtain ⟨index, hindex, hpath⟩ := h.path
    have hreading : (Query.contract (.path index)).IsReading := trivial
    exact ⟨index, hindex, (hw₁.answer_eq hw hreading).trans hpath⟩
  nonce_ne := h.nonce_ne

namespace Tracks

theorem read_eq (h : Tracks o p N w xs k) :
    (o.register p).read (w.storages p.storage p.storageKey) = .ok (stateAt o.id xs k) := by
  rw [h.stored_eq]
  by_cases hxs : xs.take k = []
  · rw [stateAt, hxs]
    rfl
  · rw [History.getLast?_items _ (.unopened o.id) hxs]
    exact h.chain.read_item h.kept_le rfl

/-- The ledger hands out the path of the kept note. -/
theorem shown (h : Tracks o p N w xs k) (hw : w.Within n) {holding : Holding}
    (ha : stateAt o.id xs k = .opened holding) :
    Shown (World.oracle p.number p.storage w) holding := by
  refine ⟨hw.plain.oracle_prover, ?_, ?_⟩
  · have hplaced := h.chain.placed hw.indexed h.kept_le
    rw [ha] at hplaced
    rcases hplaced with hopen | ⟨index, note, hindex, hnote, hleaf⟩
    · cases hopen
    · obtain rfl : holding.note = note := Option.some.inj hnote
      exact ⟨index, hindex, hw.plain.oracle_path hleaf⟩
  · have hnonce := h.chain.isUnopened_or h.kept_le
    rw [ha] at hnonce
    simpa [Account.isUnopened, Account.nonce] using hnonce

/-- The steps that have not been kept are the walk of the next pass. -/
theorem entire (h : Tracks o p N w xs k) (hd : Distinct N o.id) (hN : w.ledger.blocks.length ≤ N) :
    Entire simulated o.version w.ledger (stateAt o.id xs k) (xs.drop k) := by
  by_cases hversion : o.version = w.ledger.version
  · rw [hversion]
    exact h.chain.entire hd hN k
  · obtain rfl := h.outdated hversion
    obtain rfl : k = 0 := Nat.le_zero.1 h.kept_le
    exact ⟨trivial, h.chain.eval_last hd hN o.version⟩

end Tracks

/-! ## Movements -/

/-- How an attempt to move the account `a` ends, with `k` steps kept out of `n`. -/
inductive Settles (o : Owner) (w : World) (a : Account) (t : Attempt) (k n : Nat) :
    Except Failure Hash256 → World → Prop where
  /-- Nothing has happened that anybody can tell. -/
  | refused {e : Failure} {w' : World} (he : t.settle o.version w.ledger.version k n = .error e)
      (hw : w.Spared w') : Settles o w a t k n (.error e) w'
  /-- A call that continues the account was accepted. -/
  | moved {tx : Hash256} {w' : World} {c : Call t.movement}
      (ht : t.settle o.version w.ledger.version k n = .ok ())
      (hc : c.Continues simulated o.version a) (hamount : c.amount = t.amount)
      (hpayout : Ledger.payout c = (t.destination, t.fee))
      (hnew : w.ledger.nullifierBlock? c.key = none) (hw : w.Took c w') :
      Settles o w a t k n (.ok tx) w'

namespace Tracks

variable {amount : UInt256} {destination : Option Address} {fee : Option UInt256}
  {verdict : Except Failure Unit} {refusal : String → Failure} {terms : Terms m}
  {x : Action (Calldata m)} {send : Calldata m → Action Hash256} {r : Except Failure (Calldata m)}

/-- A call that continues the last kept state registers a new hash exactly if all steps are kept. -/
theorem nullifierBlock?_key (h : Tracks o p N w xs k) (hd : Distinct N o.id)
    (hN : w.ledger.blocks.length ≤ N) {c : Call m}
    (hc : c.Continues simulated w.ledger.version (stateAt o.id xs k)) (hopening : m = .opening → k = 0) :
    w.ledger.nullifierBlock? c.key = none ↔ k = xs.length := by
  have hkey : c.key = searchHash o.id k := by
    rw [h.chain.key_eq h.kept_le hc]
    split
    · rw [hopening ‹_›]
    · rfl
  have hlen := h.chain.length_le
  have hle := h.kept_le
  rw [Ledger.nullifierBlock?_eq_none_iff, hkey, h.chain.fresh_iff hd hN (by omega)]
  omega

/-- What becomes of a call that was prepared from the last kept state, on a ledger that is as it was when
the state was read. -/
theorem deliver (h : Tracks o p N w xs k) (hw : w.Within n) (hd : Distinct N o.id) (hn : n < N)
    (hN : N < UInt64.size) {q : Calldata m} {x : Action Hash256} (hw₁ : w.Alike w₁)
    (hq : Proper amount terms o.version q)
    (hcontinues : q.call.Continues simulated o.version (stateAt o.id xs k))
    (hknown : ∀ root, q.call.root? = some root → root ∈ w₁.ledger.roots) (hopening : m = .opening → k = 0)
    (hpayout : Ledger.payout q.call = (destination, fee)) (hx : Brings p.number p.storage q x refusal) :
    ∃ r w', (Wallet.deliver q x).run.run (World.answer p.number p.storage) w₁ = (r, w') ∧
      Settles o w (stateAt o.id xs k) ⟨m, amount, destination, fee, .ok (), refusal⟩ k xs.length r w' := by
  by_cases hversion : o.version = w.ledger.version
  · have hvets : w₁.ledger.Vets q.version q.call := by
      refine ⟨?_, ?_, hknown, ?_⟩
      · rw [hq.version_eq, hw₁.ledger.version_eq, hversion]
      · rw [hq.version_eq]
        exact hq.checked
      · have hle := hw.encoded_le
        rw [hw₁.ledger.encoded_eq]
        omega
    have hfresh := h.nullifierBlock?_key hd (Nat.le_trans hw.blocks_le (Nat.le_of_lt hn))
      (hversion ▸ hcontinues) hopening
    by_cases hk : k = xs.length
    · have hnew := hfresh.2 hk
      obtain ⟨w₂, hdeliver, htook⟩ := hx.accepted.deliver w₁ hw₁.plain
        ⟨hvets, (Ledger.nullifierBlock?_alike hw₁.ledger _).trans hnew⟩
      refine ⟨_, w₂, hdeliver, .moved ?_ hcontinues hq.amount_eq hpayout hnew
        (htook.amid hw₁ htook.plain.alike)⟩
      simp [Attempt.settle, hversion, hk]
    · -- the hash is registered, as there are steps that have not been kept
      have hspent : World.Spent q.version q.call w₁.ledger := by
        refine ⟨hvets, ?_⟩
        rw [Ledger.nullifierBlock?_alike hw₁.ledger]
        exact fun hnone => hk (hfresh.1 hnone)
      have halike : ∀ {l l' : Ledger}, l.Alike l' → World.Spent q.version q.call l →
          World.Spent q.version q.call l' := by
        rintro l l' hl ⟨hvets, hkey⟩
        exact ⟨hvets.alike hl, by rwa [Ledger.nullifierBlock?_alike hl]⟩
      obtain ⟨w₂, hdeliver, hspared⟩ := hx.spent.deliver q halike w₁ hw₁.plain hspent
      refine ⟨_, w₂, hdeliver, .refused ?_ (hspared.amid hw₁ hspared.plain.alike)⟩
      simp [Attempt.settle, hversion, hk]
  · have hdeployed : q.version ≠ w.ledger.version := by rwa [hq.version_eq]
    have halike : ∀ {l l' : Ledger}, l.Alike l' → l.version = w.ledger.version →
        l'.version = w.ledger.version := fun hl he => hl.version_eq.trans he
    obtain ⟨w₂, hdeliver, hspared⟩ := (hx.outdated _ hdeployed).deliver q halike w₁ hw₁.plain
      hw₁.ledger.version_eq
    refine ⟨_, w₂, hdeliver, .refused ?_ (hspared.amid hw₁ hspared.plain.alike)⟩
    simp [Attempt.settle, hversion, hq.version_eq]

/-- A call is prepared from the last kept state and delivered, or the owner is told why there is none. -/
theorem generate (h : Tracks o p N w xs k) (hw : w.Within n) (hd : Distinct N o.id) (hn : n < N)
    (hN : N < UInt64.size) (stage : Stage) (operation : Operation)
    (hx : x.run.run (World.answer p.number p.storage) w = (r, w₁)) (hw₁ : w.Alike w₁)
    (hprepares : Prepares amount terms o.version verdict r)
    (hmade : ∀ q, r = .ok q → q.call.Continues simulated o.version (stateAt o.id xs k) ∧
      ∀ root, q.call.root? = some root → root ∈ w₁.ledger.roots)
    (hopening : m = .opening → k = 0)
    (hpayout : ∀ q : Call m, q.terms = terms → Ledger.payout q = (destination, fee))
    (hsend : ∀ q : Calldata m, q.call.terms = terms → Brings p.number p.storage q (send q) refusal) :
    ∃ r' w', (Action.reporting stage operation x >>= fun q => Wallet.deliver q (send q)).run.run
        (World.answer p.number p.storage) w = (r', w') ∧
      Settles o w (stateAt o.id xs k) ⟨m, amount, destination, fee, verdict, refusal⟩ k xs.length r'
        w' := by
  cases hprepares with
  | fails e =>
    have hreported := Action.run_reporting_error stage operation hx
    have htold := hw₁.plain.alike_answer p.number p.storage (q := .notify (.ofFailure e stage operation))
      trivial
    exact ⟨_, _, Action.run_bind_error hreported, .refused rfl (hw₁.trans htold).spared⟩
  | @makes q hq =>
    obtain ⟨hcontinues, hknown⟩ := hmade q rfl
    obtain ⟨r', w', hdeliver, hsettles⟩ := h.deliver hw hd hn hN hw₁ hq hcontinues hknown hopening
      (hpayout _ hq.terms_eq) (hsend q hq.terms_eq)
    have hreported := (Action.run_reporting_ok stage operation hx).1
    exact ⟨r', w', (Action.run_bind_ok hreported).trans hdeliver, hsettles⟩

theorem run_account (h : Tracks o p N w xs k) (hw : w.Within n) :
    (o.wallet p).account.run.run (World.answer p.number p.storage) w =
      (.ok (stateAt o.id xs k), w) := by
  have hread : (o.wallet p).register.read (w.storages p.storage (o.wallet p).register.key) =
      .ok (stateAt o.id xs k) := h.read_eq
  exact hw.plain.run_account hread

theorem shield (h : Tracks o p N w xs k) (hw : w.Within n) (hd : Distinct N o.id) (hn : n < N)
    (hN : N < UInt64.size) (amount : UInt256) (sender : Address) :
    ∃ t r w', (Command.shield amount sender).attempt? o.version (stateAt o.id xs k) = some t ∧
      ((o.wallet p).shield amount sender).run.run (World.answer p.number p.storage) w = (r, w') ∧
      Settles o w (stateAt o.id xs k) t k xs.length r w' := by
  have hnonce := h.chain.nonce_stateAt h.kept_le
  have haccount := (Action.run_reporting_ok .generation (.move .opening) (h.run_account hw)).1
  have ho : ∀ q, World.oracle p.number p.storage w (.prover q) = simulated q := hw.plain.oracle_prover
  let a := stateAt o.id xs k
  rw [Wallet.shield, Action.run_bind_ok haccount]
  by_cases hopen : a.nonce = 0
  · have hk : k = 0 := by
      rw [← hnonce, hopen]
      rfl
    have hmax : a.nonce ≠ Note.maxNonce := by
      rw [hopen]
      decide
    have hreading : (Opening.prepare o.version a amount o.version).run.Confined Query.IsReading :=
      Opening.confined_prepare fun _ => trivial
    obtain ⟨w₁, hrun, hw₁, hmade⟩ := hw.plain.run_prepared hreading Opening.yields_prepare
    obtain ⟨r, w', hgenerate, hsettles⟩ := h.generate hw hd hn hN .generation (.move .opening) hrun hw₁
      (prepares_opening o.version o.version amount ho hmax) hmade (fun _ => hk) (fun _ _ => rfl)
      fun q _ => brings_send q sender
    refine ⟨_, r, w', if_pos hopen, ?_, hsettles⟩
    rw [if_pos hopen]
    exact hgenerate
  · have hreading : (Deposit.prepare o.version a amount o.version).run.Confined Query.IsReading :=
      Deposit.confined_prepare (fun _ => trivial) fun _ => trivial
    obtain ⟨w₁, hrun, hw₁, hmade⟩ := hw.plain.run_prepared hreading Deposit.yields_prepare
    obtain ⟨r, w', hgenerate, hsettles⟩ := h.generate hw hd hn hN .generation (.move .deposit) hrun hw₁
      (prepares_deposit o.version o.version amount ho fun _ ha => h.shown hw ha) hmade
      (fun hm => by cases hm) (fun _ _ => rfl) fun q _ => brings_send q sender
    refine ⟨_, r, w', if_neg hopen, ?_, hsettles⟩
    rw [if_neg hopen]
    exact hgenerate

theorem withdrawAlone (h : Tracks o p N w xs k) (hw : w.Within n) (hd : Distinct N o.id) (hn : n < N)
    (hN : N < UInt64.size) (amount : UInt256) (destination sender : Address) :
    ∃ t r w', (Command.withdrawAlone amount destination sender).attempt? o.version
        (stateAt o.id xs k) = some t ∧
      ((o.wallet p).withdrawAlone amount destination sender).run.run (World.answer p.number p.storage)
        w = (r, w') ∧
      Settles o w (stateAt o.id xs k) t k xs.length r w' := by
  let a := stateAt o.id xs k
  let payout : Payout := ⟨destination, sender, 0⟩
  have ho : ∀ q, World.oracle p.number p.storage w (.prover q) = simulated q := hw.plain.oracle_prover
  have hreading : (Withdrawal.prepare o.version a amount payout o.version).run.Confined
      Query.IsReading := Withdrawal.confined_prepare (fun _ => trivial) fun _ => trivial
  obtain ⟨w₁, hrun, hw₁, hmade⟩ := hw.plain.run_prepared hreading Withdrawal.yields_prepare
  have hx : ((o.wallet p).account >>= fun a =>
      Withdrawal.prepare o.version a amount payout o.version).run.run
        (World.answer p.number p.storage) w = _ :=
    (Action.run_bind_ok (h.run_account hw)).trans hrun
  obtain ⟨r, w', hgenerate, hsettles⟩ := h.generate hw hd hn hN .generation (.move .withdrawal) hx hw₁
    (prepares_withdrawal o.version o.version amount payout ho fun _ ha => h.shown hw ha) hmade
    (fun hm => by cases hm)
    (fun q hq => show (some q.terms.destination, some q.terms.fee) = (some destination, some 0) by rw [hq])
    fun q _ => brings_send q sender
  exact ⟨_, r, w', rfl, hgenerate, hsettles⟩

/-- A withdrawal is checked before the relayer is asked for its address. -/
theorem prepare_withdraw (h : Tracks o p N w xs k) (hw : w.Within n) (amount fee : UInt256)
    (destination : Address) :
    ∃ r w₁, (do
        let a ← (o.wallet p).account
        liftM (Withdrawal.check a amount fee)
        let relayer ← Action.relayer .address
        Withdrawal.prepare o.version a amount ⟨destination, relayer, fee⟩ o.version :
          Action (Calldata .withdrawal)).run.run (World.answer p.number p.storage) w = (r, w₁) ∧
      w.Alike w₁ ∧
      Prepares amount (⟨destination, relayerAddress, fee⟩ : Payout) o.version
        (withdrawable o.version (stateAt o.id xs k) amount fee) r ∧
      ∀ q, r = .ok q → q.call.Continues simulated o.version (stateAt o.id xs k) ∧
        ∀ root, q.call.root? = some root → root ∈ w₁.ledger.roots := by
  let a := stateAt o.id xs k
  let payout : Payout := ⟨destination, relayerAddress, fee⟩
  have hchecked : ∀ result, Withdrawal.check a amount fee = result →
      (liftM (Withdrawal.check a amount fee) : Action Unit).run.run
        (World.answer p.number p.storage) w = (result, w) := by
    rintro _ rfl
    rfl
  cases hcheck : Withdrawal.check a amount fee with
  | error e =>
    refine ⟨.error e, w, ?_, hw.plain.alike, ?_, fun q hq => by cases hq⟩
    · exact (Action.run_bind_ok (h.run_account hw)).trans (Action.run_bind_error (hchecked _ hcheck))
    · rw [withdrawable, show Withdrawal.check (stateAt o.id xs k) amount fee = .error e from hcheck]
      exact .fails e
  | ok u =>
    obtain ⟨w₁, hrelayer, hw₁⟩ := hw.plain.run_relayer p.number p.storage
    have ho : ∀ q, World.oracle p.number p.storage w₁ (.prover q) = simulated q :=
      hw₁.plain.oracle_prover
    have hreading : (Withdrawal.prepare o.version a amount payout o.version).run.Confined
        Query.IsReading := Withdrawal.confined_prepare (fun _ => trivial) fun _ => trivial
    obtain ⟨w₂, hrun, hw₂, hmade⟩ := hw₁.plain.run_prepared hreading Withdrawal.yields_prepare
    refine ⟨_, w₂, ?_, hw₁.trans hw₂, ?_, hmade⟩
    · exact (Action.run_bind_ok (h.run_account hw)).trans ((Action.run_bind_ok (hchecked _ hcheck)).trans
        ((Action.run_bind_ok hrelayer).trans hrun))
    · exact prepares_withdrawal o.version o.version amount payout ho fun _ ha =>
        (h.shown hw ha).alike hw.plain hw₁

theorem withdraw (h : Tracks o p N w xs k) (hw : w.Within n) (hd : Distinct N o.id) (hn : n < N)
    (hN : N < UInt64.size) (amount fee : UInt256) (destination : Address) :
    ∃ t r w', (Command.withdraw amount fee destination).attempt? o.version
        (stateAt o.id xs k) = some t ∧
      ((o.wallet p).withdraw amount fee destination).run.run (World.answer p.number p.storage)
        w = (r, w') ∧
      Settles o w (stateAt o.id xs k) t k xs.length r w' := by
  obtain ⟨r, w₁, hx, hw₁, hprepares, hmade⟩ := h.prepare_withdraw hw amount fee destination
  obtain ⟨r', w', hgenerate, hsettles⟩ := h.generate hw hd hn hN .generation (.move .withdrawal) hx hw₁
    hprepares hmade (fun hm => by cases hm)
    (fun q hq => show (some q.terms.destination, some q.terms.fee) = (some destination, some fee) by
      rw [hq])
    fun q hq => brings_relay (by rw [hq])
  exact ⟨_, r', w', rfl, hgenerate, hsettles⟩

/-- What becomes of an operation that moves funds is what becomes of the attempt. -/
theorem move (h : Tracks o p N w xs k) (hw : w.Within n) (hd : Distinct N o.id) (hn : n < N)
    (hN : N < UInt64.size) {command : Command} (hc : command ≠ .sync) :
    ∃ t r w', command.attempt? o.version (stateAt o.id xs k) = some t ∧
      (command.program (o.wallet p)).run.run (World.answer p.number p.storage) w =
        (r.map .sent, w') ∧
      Settles o w (stateAt o.id xs k) t k xs.length r w' := by
  cases command with
  | shield amount sender =>
    obtain ⟨t, r, w', ht, hrun, hsettles⟩ := h.shield hw hd hn hN amount sender
    refine ⟨t, r, w', ht, ?_, hsettles⟩
    rw [Command.program, Action.run_bind_pure, hrun]
  | withdraw amount fee destination =>
    obtain ⟨t, r, w', ht, hrun, hsettles⟩ := h.withdraw hw hd hn hN amount fee destination
    refine ⟨t, r, w', ht, ?_, hsettles⟩
    rw [Command.program, Action.run_bind_pure, hrun]
  | withdrawAlone amount destination sender =>
    obtain ⟨t, r, w', ht, hrun, hsettles⟩ := h.withdrawAlone hw hd hn hN amount destination sender
    refine ⟨t, r, w', ht, ?_, hsettles⟩
    rw [Command.program, Action.run_bind_pure, hrun]
  | sync => exact absurd rfl hc

end Tracks

end ShieldedWallet.Simulation
