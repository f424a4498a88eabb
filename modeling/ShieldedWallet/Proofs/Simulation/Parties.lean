import ShieldedWallet.Proofs.Simulation.Chain
import ShieldedWallet.Proofs.Wallet.Orders

/-!
# Many wallets of one account

Some wallets of one account carry out orders on one ledger, each with a storage of its own. Their
questions are answered in any order, so that a wallet may act on an account that is long out of date,
and a call may be sent when others have used up the note it spends. In between others use the ledger.
The only thing they do not do is to register a search hash of the account.
-/

namespace ShieldedWallet

/-- The hashes of the transactions that an answer tells to be accepted. -/
def Exchange.accepted : Exchange surroundings → List Hash256
  | ⟨.submit _, r⟩ => r.toOption.toList
  | ⟨.relayer (.submit _), r⟩ => r.toOption.toList
  | _ => []

theorem Exchange.accepted_of_isQuiet {q : Query} {r : q.Answer} (hq : q.IsQuiet) :
    Exchange.accepted ⟨q, r⟩ = [] := by
  cases q with
  | relayer q =>
    cases q with
    | submit r => exact hq.elim
    | _ => rfl
  | submit tx => exact hq.elim
  | _ => rfl

namespace Simulation

/-- The owner of an account. All wallets of the account are made of the same signing key, for the same
chain and contract version. -/
structure Owner where
  signingKey : Hash256
  /-- The identifier of the chain. -/
  chainId : UInt64
  version : ContractVersion

/-- What a wallet of the account has for itself. -/
structure Party where
  /-- The number of the wallet. -/
  number : Nat
  /-- The number of its storage. -/
  storage : Nat
  /-- The key it keeps the account under. -/
  storageKey : String
  /-- The address of its relayer. -/
  relayerUrl : Option String

namespace Owner

variable (o : Owner) (p : Party)

/-- The identifier of the account. -/
def id : Scalar := accountId o.signingKey o.chainId

/-- The settings of a party. -/
def settings : Settings := ⟨o.chainId, o.version, p.storageKey, p.relayerUrl⟩

/-- The register of a party. -/
def register : Register := ⟨p.storageKey, o.id, hash [o.id]⟩

/-- The wallet of a party. -/
def wallet : Wallet := ⟨o.settings p, o.register p⟩

/-- It is the wallet that is made of the signing key. -/
theorem run_ofKey {w : World} (hw : w.Plain) :
    ((Wallet.ofKey (o.settings p) o.signingKey).run.run (World.answer p.number p.storage) w).1 =
      .ok (o.wallet p) := by
  have hconfined : (Wallet.ofKey (o.settings p) o.signingKey).run.Confined Query.IsLookup := by
    refine Action.confined_bind ?_ fun register => Action.confined_pure _
    refine Action.confined_bind (Action.confined_prover trivial) fun id => ?_
    exact Action.confined_bind (Action.confined_prover trivial) fun idHash => Action.confined_pure _
  rw [(World.serves_answer p.number p.storage).run_eq_eval hconfined hw]
  have hid : reading simulated w.ledger (.prover (.accountId o.signingKey o.chainId)) = .ok o.id := rfl
  have hhash := simulated_hash_one o.id
  rw [Wallet.ofKey, Action.eval_bind_ok (a := o.register p)]
  · rfl
  · rw [Register.ofKey]
    exact (Action.eval_bind_ok (Action.eval_prover_ok hid)).trans
      (Action.eval_bind_ok (Action.eval_prover_ok hhash))

end Owner

/-! ## Moves -/

/-- What carrying out an order ends with. -/
abbrev Outcome := Except Failure (Option ((m : Movement) × Calldata m))

/-- An order that a wallet carries out: what it has asked so far, and what it will do from there. -/
structure Task where
  /-- The party whose wallet it is. -/
  party : Party
  order : Order
  /-- The exchanges so far. -/
  trace : Trace
  /-- What is left to be done. -/
  rest : Program surroundings Outcome

/-- What there is at some time. -/
structure Site where
  world : World
  /-- The orders given so far. -/
  tasks : List Task
  /-- The hashes of the transactions of the parties that the ledger has accepted, in their order. -/
  accepted : List Hash256

/-- An order can be given at any time, but a call is sent only after one of the wallets has prepared
it. -/
def IsReady (ts : List Task) : Order → Prop
  | @Order.send m c _ => ∃ x ∈ ts, x.rest = .done (.ok (some ⟨m, c⟩))
  | .relay c => ∃ x ∈ ts, x.rest = .done (.ok (some ⟨.withdrawal, c⟩))
  | _ => True

/-- One move at a site: a party is given an order, a question of a wallet is answered, or something
else happens on the ledger. -/
inductive Moves (o : Owner) (N : Nat) (parties : List Party) : Site → Site → Prop where
  | start {w : World} {ts : List Task} {hashes : List Hash256} {p : Party} {order : Order}
      (hp : p ∈ parties) (ho : IsReady ts order) :
      Moves o N parties ⟨w, ts, hashes⟩
        ⟨w, ts ++ [⟨p, order, [], (order.program (o.wallet p)).run⟩], hashes⟩
  | answer {w w' : World} {ts ts' : List Task} {hashes : List Hash256} {p : Party} {order : Order}
      {t : Trace} {q : Query} {next : q.Answer → Program surroundings Outcome} {r : q.Answer}
      (h : World.answer p.number p.storage q w = (r, w')) :
      Moves o N parties ⟨w, ts ++ ⟨p, order, t, .ask q next⟩ :: ts', hashes⟩
        ⟨w', ts ++ ⟨p, order, t ++ [⟨q, r⟩], next r⟩ :: ts', hashes ++ Exchange.accepted ⟨q, r⟩⟩
  | other {w : World} {ts : List Task} {hashes : List Hash256} {x : Ledger.Operation}
      (hv : (x.apply w.ledger).version = w.ledger.version)
      (hb : ∀ b ∈ (x.apply w.ledger).blocks.drop w.ledger.blocks.length, ¬ b.IsOf N o.id) :
      Moves o N parties ⟨w, ts, hashes⟩ ⟨{ w with ledger := x.apply w.ledger }, ts, hashes⟩

/-- The site has come to be from the world `w₀` by moves. -/
inductive Course (o : Owner) (N : Nat) (parties : List Party) (w₀ : World) : Site → Prop where
  | start : Course o N parties w₀ ⟨w₀, [], []⟩
  | move {s s' : Site} (h : Course o N parties w₀ s) (hm : Moves o N parties s s') :
      Course o N parties w₀ s'

variable {o : Owner} {N : Nat} {parties : List Party} {w₀ : World} {s s' : Site}

theorem Moves.grows (hm : Moves o N parties s s') (hw : s.world.Plain) :
    s'.world.Plain ∧ s.world.ledger.Grows s'.world.ledger := by
  cases hm with
  | start hp ho => exact ⟨hw, .refl _⟩
  | @answer w w' ts ts' hashes p order t q next r h =>
    have hw' := (World.serves_answer p.number p.storage).stays (q := q) hw
    have hg := (World.serves_answer p.number p.storage).grows (q := q) hw
    rw [h] at hw' hg
    exact ⟨hw', hg⟩
  | @other w ts hashes x hv hb =>
    exact ⟨⟨⟨hw.faults, hw.substitutes⟩, hw.link, hw.refusing⟩, Ledger.grows_apply x w.ledger⟩

/-! ## Uninterrupted orders -/

/-- A wallet may carry out its order to the end without others interfering. -/
theorem Course.finish {w : World} {ts : List Task} {hashes : List Hash256} {p : Party} {order : Order}
    {t : Trace} {rest : Program surroundings Outcome}
    (h : Course o N parties w₀ ⟨w, ts ++ [⟨p, order, t, rest⟩], hashes⟩) :
    Course o N parties w₀
      ⟨(rest.run (World.answer p.number p.storage) w).2,
        ts ++ [⟨p, order, t ++ rest.trace (World.answer p.number p.storage) w,
          .done (rest.run (World.answer p.number p.storage) w).1⟩],
        hashes ++ (rest.trace (World.answer p.number p.storage) w).flatMap Exchange.accepted⟩ := by
  induction rest generalizing w t hashes with
  | done a => simpa [Program.trace] using h
  | ask q next ih =>
    have hanswer : World.answer p.number p.storage q w =
      ((World.answer p.number p.storage q w).1, (World.answer p.number p.storage q w).2) := rfl
    have hnext := ih _ (h.move (.answer hanswer))
    simpa only [Program.run_ask, Program.trace, List.flatMap_cons, List.append_assoc,
      List.singleton_append] using hnext

theorem Course.carryOut {w : World} {ts : List Task} {hashes : List Hash256} {p : Party}
    {order : Order} (h : Course o N parties w₀ ⟨w, ts, hashes⟩) (hp : p ∈ parties)
    (ho : IsReady ts order) :
    Course o N parties w₀
      ⟨((order.program (o.wallet p)).run.run (World.answer p.number p.storage) w).2,
        ts ++ [⟨p, order, (order.program (o.wallet p)).run.trace (World.answer p.number p.storage) w,
          .done ((order.program (o.wallet p)).run.run (World.answer p.number p.storage) w).1⟩],
        hashes ++ ((order.program (o.wallet p)).run.trace
          (World.answer p.number p.storage) w).flatMap Exchange.accepted⟩ :=
  (h.move (.start hp ho)).finish

end Simulation

end ShieldedWallet
