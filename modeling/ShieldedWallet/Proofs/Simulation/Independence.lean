import ShieldedWallet.Proofs.Simulation.Agreement
import ShieldedWallet.Proofs.Simulation.Faring

/-!
# Independence of accounts

Wallets of different accounts share a ledger, one wallet and one storage for each account. An account
fares as if it were alone: whatever the others do in between, its operations end as they would without
them, its owner is told the same transactions, and the same account is kept, but for transaction hashes,
blocks and positions.
-/

namespace ShieldedWallet.Simulation

open History (Step)

variable {ι : Type}

/-- The first `N + 1` search hashes of all accounts differ. -/
def Apart (N : Nat) (owner : ι → Owner) : Prop :=
  ∀ i j, ∀ m ≤ N, ∀ n ≤ N, searchHash (owner i).id m = searchHash (owner j).id n → i = j ∧ m = n

/-- Nothing has happened on the ledger, and the storages are different and empty. -/
structure Unused (party : ι → Party) (w : World) : Prop where
  plain : w.Plain
  leaves_eq : w.ledger.leaves = []
  blocks_eq : w.ledger.blocks = []
  encoded_eq : w.ledger.encoded = []
  storage_injective : ∀ i j, (party i).storage = (party j).storage → i = j
  stored_eq : ∀ i, w.storages (party i).storage (party i).storageKey = none

/-- The operations are carried out one after the other, each by the wallet that it is for. -/
def World.play (owner : ι → Owner) (party : ι → Party) :
    List (ι × Command) → World → List (ι × Report) × World
  | [], w => ([], w)
  | (i, command) :: rest, w =>
    let first := w.operate (owner i) (party i) command
    let others := World.play owner party rest first.2
    ((i, first.1) :: others.1, others.2)

/-- What is of the wallet `i`, in its order. -/
def itemsOf {α : Type} [DecidableEq ι] (i : ι) (xs : List (ι × α)) : List α :=
  (xs.filter (·.1 = i)).map Prod.snd

/-- What is kept for the party, but for the position of the note: nothing, something that is no record,
or a record. -/
def persisted (p : Party) (w : World) : Option (Option AccountRecord) :=
  (w.storages p.storage p.storageKey).map fun item =>
    (AccountRecord.ofBytes? item).map fun r => { r with noteIndex := none }

section ItemsOf

variable {α : Type} [DecidableEq ι] {i j : ι} {x : α} {xs : List (ι × α)}

theorem itemsOf_cons_self : itemsOf i ((i, x) :: xs) = x :: itemsOf i xs := by
  simp [itemsOf]

theorem itemsOf_cons_of_ne (h : j ≠ i) : itemsOf i ((j, x) :: xs) = itemsOf i xs := by
  simp [itemsOf, h]

end ItemsOf

variable {owner : ι → Owner} {party : ι → Party} {o o' : Owner} {p p' : Party} {N n k : Nat}
  {xs ys xs' ys' : List Step} {w w' : World} {i j : ι}

theorem Apart.distinct (h : Apart N owner) (i : ι) : Distinct N (owner i).id :=
  fun m hm n hn he => (h i i m hm n hn he).2

theorem Apart.not_isOf (h : Apart N owner) (hij : j ≠ i) {b : Block} (hb : b.IsOf N (owner j).id) :
    ¬ b.IsOf N (owner i).id := by
  rintro ⟨m, hm, he⟩
  obtain ⟨n, hn, he'⟩ := hb
  exact hij (h j i n hn m hm (he'.symm.trans he)).1

/-! ## Others -/

/-- What concerns others only leaves the steps of the account, and what is kept of them. -/
theorem Tracks.other (h : Tracks o p N w xs k) (hc : w.ConcernsOnly o' p' N w')
    (hp : p.storage ≠ p'.storage) (hb : ∀ b : Block, b.IsOf N o'.id → ¬ b.IsOf N o.id) :
    Tracks o p N w' xs k where
  chain := by
    rw [hc.version_eq]
    exact h.chain.other hc.grows hc.version_eq fun b hmem => hb b (hc.blocks b hmem)
  outdated := by
    rw [hc.version_eq]
    exact h.outdated
  kept_le := h.kept_le
  stored_eq := by
    rw [hc.storages_eq p.storage hp]
    exact h.stored_eq

/-- Each wallet has kept some of the steps of its account. -/
structure Tended (owner : ι → Owner) (party : ι → Party) (N n : Nat) (w : World) : Prop where
  within : w.Within n
  storage_injective : ∀ i j, (party i).storage = (party j).storage → i = j
  tracks : ∀ i, ∃ xs k, Tracks (owner i) (party i) N w xs k

theorem Unused.tracks (h : Unused party w) (owner : ι → Owner) (N : Nat) (i : ι) :
    Tracks (owner i) (party i) N w [] 0 := by
  refine ⟨⟨rfl, trivial, ?_⟩, fun _ => rfl, Nat.le_refl _, h.stored_eq i⟩
  rw [Ledger.blocksOf, h.blocks_eq]
  rfl

theorem Unused.tended (h : Unused party w) (owner : ι → Owner) (N : Nat) : Tended owner party N 0 w where
  within := by
    refine ⟨h.plain, ?_, ?_, ?_, ?_⟩
    · intro b hb
      rw [h.blocks_eq] at hb
      cases hb
    · rw [h.blocks_eq]
      exact Nat.le_refl _
    · rw [h.leaves_eq]
      exact Nat.le_refl _
    · rw [h.encoded_eq]
      exact Nat.le_refl _
  storage_injective := h.storage_injective
  tracks i := ⟨[], 0, h.tracks owner N i⟩

namespace Tended

/-- An operation of one wallet is none of the others' business. -/
theorem other (h : Tended owner party N n w) (ha : Apart N owner) (hn : n < N) (hN : N < UInt64.size)
    (hij : j ≠ i) (command : Command) (hi : Tracks (owner i) (party i) N w xs k) :
    (w.operate (owner j) (party j) command).2.ledger.version = w.ledger.version ∧
      Tracks (owner i) (party i) N (w.operate (owner j) (party j) command).2 xs k := by
  obtain ⟨ys, k', hj⟩ := h.tracks j
  obtain ⟨-, -, -, -, -, hconcerns⟩ := hj.operate h.within (ha.distinct j) hn hN command
  exact ⟨hconcerns.version_eq, hi.other hconcerns (fun he => hij (h.storage_injective i j he).symm)
    fun b => ha.not_isOf hij⟩

theorem operate (h : Tended owner party N n w) (ha : Apart N owner) (hn : n < N) (hN : N < UInt64.size)
    (j : ι) (command : Command) :
    Tended owner party N (n + 1) (w.operate (owner j) (party j) command).2 := by
  obtain ⟨ys, k', hj⟩ := h.tracks j
  obtain ⟨zs, k'', -, hafter, hwithin, -⟩ := hj.operate h.within (ha.distinct j) hn hN command
  refine ⟨hwithin, h.storage_injective, fun i => ?_⟩
  by_cases hij : j = i
  · subst hij
    exact ⟨zs, k'', hafter⟩
  · obtain ⟨xs, k, hi⟩ := h.tracks i
    exact ⟨xs, k, (h.other ha hn hN hij command hi).2⟩

end Tended

/-! ## All operations of a wallet -/

/-- How an account fares in the operations of its wallet, one after the other. -/
inductive FaresAll (o : Owner) (deployed : ContractVersion) :
    List Step → Nat → List Command → List Report → List Step → Nat → Prop where
  | nil {xs : List Step} {k : Nat} : FaresAll o deployed xs k [] [] xs k
  | cons {xs ys zs : List Step} {k j i : Nat} {command : Command} {commands : List Command}
      {r : Report} {rs : List Report} (hr : Fares o deployed xs k command r ys j)
      (hrs : FaresAll o deployed ys j commands rs zs i) :
      FaresAll o deployed xs k (command :: commands) (r :: rs) zs i

/-- But for when things happened, a list of operations has one way to go. -/
theorem FaresAll.bare_eq {deployed : ContractVersion} {commands : List Command} {rs rs' : List Report}
    {j j' : Nat} (h : FaresAll o deployed xs k commands rs xs' j)
    (h' : FaresAll o deployed ys k commands rs' ys' j') (hb : xs.map Step.bare = ys.map Step.bare) :
    rs.map Report.bare = rs'.map Report.bare ∧ xs'.map Step.bare = ys'.map Step.bare ∧ j = j' := by
  induction h generalizing ys rs' with
  | nil =>
    cases h'
    exact ⟨rfl, hb, rfl⟩
  | cons hr _ ih =>
    cases h' with
    | cons hr' hrs' =>
      obtain ⟨hreport, hsteps, rfl⟩ := hr.bare_eq hr' hb
      obtain ⟨hreports, hend⟩ := ih hrs' hsteps
      rw [List.map_cons, List.map_cons, hreport, hreports]
      exact ⟨rfl, hend⟩

/-- Whatever the others do in between, the account fares as its own operations have it. -/
theorem Tended.play [DecidableEq ι] {s : List (ι × Command)} (h : Tended owner party N n w)
    (ha : Apart N owner) (hs : n + s.length ≤ N) (hN : N < UInt64.size)
    (hi : Tracks (owner i) (party i) N w xs k) :
    ∃ ys j, FaresAll (owner i) w.ledger.version xs k (itemsOf i s)
        (itemsOf i (w.play owner party s).1) ys j ∧
      Tracks (owner i) (party i) N (w.play owner party s).2 ys j := by
  induction s generalizing n w xs k with
  | nil => exact ⟨xs, k, .nil, hi⟩
  | cons first rest ih =>
    obtain ⟨j, command⟩ := first
    rw [List.length_cons] at hs
    have hn : n < N := by omega
    have hafter := h.operate ha hn hN j command
    have hrest : n + 1 + rest.length ≤ N := by omega
    rw [World.play]
    -- the account goes on from its own operations only, all others leave its steps
    by_cases hij : j = i
    · subst hij
      obtain ⟨ys, k', hfares, hj, -, hconcerns⟩ := hi.operate h.within (ha.distinct j) hn hN command
      obtain ⟨zs, l, hall, hlast⟩ := ih hafter hrest hj
      rw [hconcerns.version_eq] at hall
      rw [itemsOf_cons_self, itemsOf_cons_self]
      exact ⟨zs, l, .cons hfares hall, hlast⟩
    · obtain ⟨hversion, hi'⟩ := h.other ha hn hN hij command hi
      obtain ⟨zs, l, hall, hlast⟩ := ih hafter hrest hi'
      rw [hversion] at hall
      rw [itemsOf_cons_of_ne hij, itemsOf_cons_of_ne hij]
      exact ⟨zs, l, hall, hlast⟩

/-! ## Independence -/

/-- What is kept of an account says how often its wallet has caught up, and no more of the ledger. -/
theorem Tracks.persisted_eq (h : Tracks o p N w xs k) :
    persisted p w = (((xs.map Step.bare).take k).map fun x =>
      some (AccountRecord.ofAccount (o.register p).idHash x.account)).getLast? := by
  have hbare : ∀ a : Account, (AccountRecord.ofBytes? ((o.register p).item a)).map
      (fun r => { r with noteIndex := none }) =
        some (AccountRecord.ofAccount (o.register p).idHash a.bare) := by
    intro a
    rw [Register.item, AccountRecord.ofBytes?_toBytes rfl]
    cases a <;> rfl
  rw [persisted, h.stored_eq, ← List.getLast?_map, List.map_map, ← List.map_take, List.map_map]
  refine congrArg List.getLast? (List.map_congr_left fun x _ => ?_)
  rw [Function.comp_apply, hbare]
  rfl

/-- Accounts whose search hashes differ are independent of each other. Each starts with an empty storage
of its own on a ledger without blocks. Take two schedules of operations in which one account has the same
operations in the same order: however the operations of the others stand between them, and whatever
these are, all operations of the account end alike, its owner is told the same, and the same is kept of
it, but for transaction hashes, blocks and positions. There may be as many operations as machine words
can number. -/
theorem accounts_independent [DecidableEq ι] {s s' : List (ι × Command)} (h : Unused party w)
    (ha : Apart N owner) (hs : s.length ≤ N) (hs' : s'.length ≤ N) (hN : N < UInt64.size)
    (i : ι) (hi : itemsOf i s = itemsOf i s') :
    (itemsOf i (w.play owner party s).1).map Report.bare =
        (itemsOf i (w.play owner party s').1).map Report.bare ∧
      persisted (party i) (w.play owner party s).2 = persisted (party i) (w.play owner party s').2 := by
  have htended := h.tended owner N
  have htracks := h.tracks owner N i
  obtain ⟨xs, k, hall, hkept⟩ := htended.play ha (by omega : 0 + s.length ≤ N) hN htracks
  obtain ⟨ys, j, hall', hkept'⟩ := htended.play ha (by omega : 0 + s'.length ≤ N) hN htracks
  rw [← hi] at hall'
  obtain ⟨hreports, hsteps, rfl⟩ := hall.bare_eq hall' rfl
  refine ⟨hreports, ?_⟩
  rw [hkept.persisted_eq, hkept'.persisted_eq, hsteps]

def owner8 : Owner := ⟨Vector.replicate 32 8, 1, .supported⟩

def owners : Bool → Owner
  | false => owner7
  | true => owner8

def wallets : Bool → Party
  | false => acting
  | true => watching

/-- One account shields 100 and catches up before the other one shields 5. -/
def shieldingFirst : List (Bool × Command) :=
  [(true, .shield 100 (Vector.replicate 20 1)), (true, .sync),
    (false, .shield 5 (Vector.replicate 20 2))]

/-- It does the same after the other one. -/
def shieldingLast : List (Bool × Command) :=
  [(false, .shield 5 (Vector.replicate 20 2)), (true, .shield 100 (Vector.replicate 20 1)),
    (true, .sync)]

/-- The note of the account is at another position, and nothing else differs. -/
theorem accounts_independent_shielding :
    (itemsOf true ((World.new .direct 1).play owners wallets shieldingFirst).1).map Report.bare =
        (itemsOf true ((World.new .direct 1).play owners wallets shieldingLast).1).map Report.bare ∧
      persisted (wallets true) ((World.new .direct 1).play owners wallets shieldingFirst).2 =
        persisted (wallets true) ((World.new .direct 1).play owners wallets shieldingLast).2 := by
  have hunused : Unused wallets (World.new .direct 1) :=
    ⟨⟨⟨rfl, rfl⟩, rfl, rfl⟩, rfl, rfl, rfl, by decide, fun _ => rfl⟩
  have hapart : ∀ i j : Bool, ∀ m ≤ 3, ∀ n ≤ 3,
      searchHash (owners i).id m = searchHash (owners j).id n → i = j ∧ m = n := by
    decide +kernel
  exact accounts_independent hunused hapart (by decide) (by decide) (by decide) true rfl

end ShieldedWallet.Simulation
