import ShieldedWallet.Proofs.Payment.Prepared
import ShieldedWallet.Wallet

/-!
# What a wallet is ordered to do

A wallet moves funds, brings its account up to date, or prepares a call that is sent by somebody at
some later time, and perhaps again. Whatever it is ordered to do, and whatever the answers are, it
sends only calls that continue an account it has loaded, or calls that it was given.
-/

namespace ShieldedWallet

open ShieldedWallet.Action

/-- An order to a wallet. -/
inductive Order where
  /-- To move funds into the account. -/
  | shield (amount : UInt256) (sender : Address)
  /-- To move funds out of the account through the relayer. -/
  | withdraw (amount fee : UInt256) (destination : Address)
  /-- To move funds out of the account without a relayer. -/
  | withdrawAlone (amount : UInt256) (destination sender : Address)
  /-- To bring the account up to date. -/
  | sync
  /-- To prepare a call. -/
  | generate (m : Movement) (amount : UInt256) (terms : Terms m) (expected : ContractVersion)
  /-- To send a prepared call. -/
  | send {m : Movement} (c : Calldata m) (sender : Address)
  /-- To have a prepared withdrawal submitted by the relayer. -/
  | relay (c : Calldata .withdrawal)

namespace Order

/-- A call prepared for the stored account. -/
def prepared (w : Wallet) (a : Account) (amount : UInt256) (expected : ContractVersion) :
    (m : Movement) → Terms m → Action (Calldata m)
  | .opening, _ => Opening.prepare w.settings.version a amount expected
  | .deposit, _ => Deposit.prepare w.settings.version a amount expected
  | .withdrawal, payout => Withdrawal.prepare w.settings.version a amount payout expected

/-- What the wallet does. The result is the call that was prepared, if that was the order. -/
def program (w : Wallet) : Order → Action (Option ((m : Movement) × Calldata m))
  | .shield amount sender => do
    let _ ← w.shield amount sender
    return none
  | .withdraw amount fee destination => do
    let _ ← w.withdraw amount fee destination
    return none
  | .withdrawAlone amount destination sender => do
    let _ ← w.withdrawAlone amount destination sender
    return none
  | .sync => do
    let _ ← w.sync
    return none
  | .generate m amount terms expected => do
    let a ← w.account
    let c ← prepared w a amount expected m terms
    return some ⟨m, c⟩
  | .send c sender => do
    let _ ← c.send sender
    return none
  | .relay c => do
    let _ ← c.relay
    return none

end Order

/-- A question that changes the chain or the stored account. -/
def Query.IsActing : Query → Prop
  | .submit _ | .relayer (.submit _) | .store _ _ => True
  | _ => False

/-! ## Sending -/

variable {f : Oracle proving} {w : Wallet} {t : Trace} {q : Query} {m : Movement}

/-- A call that is sent has been encoded before. -/
theorem Calldata.asks_send {c : Calldata m} {sender : Address}
    (h : (c.send sender).run.Asks t q) (hq : q.IsActing) :
    ∃ tx, q = .submit tx ∧
      (⟨.contract (.encode m c.version sender c.call), .ok tx.data⟩ : Exchange surroundings) ∈ t := by
  rcases asks_bind h with h₁ | ⟨t₁, t', data, rfl, h₁, h₂⟩
  · obtain ⟨-, rfl⟩ := Query.asks_program_iff.1 (asks_ofProgram_iff.1 h₁)
    exact hq.elim
  obtain rfl := Query.yields_program_iff.1 (yields_ofProgram_ok_iff.1 h₁)
  rcases asks_bind h₂ with h₃ | ⟨t₂, t₃, target, rfl, -, h₄⟩
  · rcases Program.asks_bind_iff.1 h₃ with h₄ | ⟨_, _, _, _, _, h₄⟩
    · obtain ⟨-, rfl⟩ := Query.asks_program_iff.1 h₄
      exact hq.elim
    · exact absurd h₄ (by simp)
  · obtain ⟨-, rfl⟩ := Query.asks_program_iff.1 (asks_ofProgram_iff.1 h₄)
    exact ⟨_, rfl, by simp⟩

theorem Calldata.asks_relay {c : Calldata .withdrawal} (h : c.relay.run.Asks t q) :
    q = .relayer (.submit c.relayRequest) :=
  (Query.asks_program_iff.1 (asks_ofProgram_iff.1 h)).2

theorem Action.asks_reporting {α : Type} {stage : Stage} {operation : Operation} {x : Action α}
    (h : (reporting stage operation x).run.Asks t q) (hq : q.IsActing) : x.run.Asks t q := by
  rcases Program.asks_bind_iff.1 h with h | ⟨t₁, t₂, r, rfl, -, h₂⟩
  · exact h
  · cases r with
    | ok a => exact absurd h₂ (by simp)
    | error e =>
      rcases Program.asks_bind_iff.1 h₂ with h₃ | ⟨_, _, _, _, _, h₃⟩
      · obtain ⟨-, rfl⟩ := Query.asks_program_iff.1 h₃
        exact hq.elim
      · exact absurd h₃ (by simp)

theorem Action.asks_notify {n : Notice} (h : (notify n).run.Asks t q) : q = .notify n := by
  rcases Program.asks_bind_iff.1 h with h | ⟨_, _, _, _, _, h⟩
  · exact (Query.asks_program_iff.1 h).2
  · exact absurd h (by simp)

namespace Wallet

/-- Delivering a call acts as sending does. -/
theorem asks_deliver {c : Calldata m} {send : Action Hash256}
    (h : (deliver c send).run.Asks t q) (hq : q.IsActing) :
    ∃ t', t' <:+: t ∧ send.run.Asks t' q := by
  rcases asks_bind h with h₁ | ⟨t₁, t', u, rfl, -, h₂⟩
  · rw [asks_notify h₁] at hq
    exact hq.elim
  rcases asks_bind h₂ with h₃ | ⟨t₂, t₃, txHash, rfl, -, h₄⟩
  · exact ⟨t', (List.suffix_append _ _).isInfix, asks_reporting h₃ hq⟩
  rcases asks_bind h₄ with h₅ | ⟨t₄, t₅, u', rfl, -, h₆⟩
  · rw [asks_notify h₅] at hq
    exact hq.elim
  · exact absurd h₆ (by simp)

/-- The account that was loaded is what a stored item stands for. -/
theorem yields_account {a : Account} (h : w.account.run.Yields t (.ok a)) :
    ∃ item, t = [⟨.load w.register.key, .ok item⟩] ∧ w.register.read item = .ok a := by
  obtain ⟨answer, rfl, hr⟩ := History.yields_load h
  cases answer with
  | error e => cases hr
  | ok item => exact ⟨item, rfl, hr.symm⟩

theorem confined_account (w : Wallet) {K : Query → Prop} (hl : K (.load w.register.key)) :
    w.account.run.Confined K :=
  confined_bind (confined_load hl) fun _ => confined_liftM _

end Wallet

/-- The call continues an account that the wallet has loaded. -/
def Call.PreparedIn (f : Oracle proving) (w : Wallet) (t : Trace) (c : Call m) : Prop :=
  ∃ item a, (⟨.load w.register.key, .ok item⟩ : Exchange surroundings) ∈ t ∧
    w.register.read item = .ok a ∧ c.Continues f w.settings.version a

theorem Call.PreparedIn.mono {c : Call m} {t' : Trace} (h : c.PreparedIn f w t) (ht : t ⊆ t') :
    c.PreparedIn f w t' := by
  obtain ⟨item, a, hl, hr, hc⟩ := h
  exact ⟨item, a, ht hl, hr, hc⟩

namespace Order

/-- A wallet that acts on the chain does so by sending a call. -/
inductive Acts (f : Oracle proving) (w : Wallet) (o : Order) (t : Trace) (q : Query) : Prop where
  /-- The call is sent as a transaction. -/
  | send {m : Movement} {c : Calldata m} {sender : Address} {t' : Trace} (ht : t' <:+: t)
      (h : (c.send sender).run.Asks t' q) (hc : c.call.PreparedIn f w t ∨ o = .send c sender)
  /-- The call is submitted by the relayer. -/
  | relay {c : Calldata .withdrawal} {t' : Trace} (ht : t' <:+: t) (h : c.relay.run.Asks t' q)
      (hc : c.call.PreparedIn f w t ∨ o = .relay c)

variable {o : Order}

theorem yields_prepared {a : Account} {amount : UInt256} {expected : ContractVersion}
    {terms : Terms m} {c : Calldata m} (h : (prepared w a amount expected m terms).run.Yields t (.ok c))
    (ht : t.AnsweredBy f) : c.call.Continues f w.settings.version a := by
  cases m with
  | opening => exact (Opening.yields_prepare h ht).1
  | deposit => exact (Deposit.yields_prepare h ht).1
  | withdrawal => exact (Withdrawal.yields_prepare h ht).1

theorem confined_prepared {K : Query → Prop} (hp : ∀ q, K (.prover q))
    (hc : ∀ index, K (.contract (.path index))) (w : Wallet) (a : Account) (amount : UInt256)
    (expected : ContractVersion) (m : Movement) (terms : Terms m) :
    (prepared w a amount expected m terms).run.Confined K := by
  cases m with
  | opening => exact Opening.confined_prepare hp
  | deposit => exact Deposit.confined_prepare hp hc
  | withdrawal => exact Withdrawal.confined_prepare hp hc

/-- Generating a call and delivering it acts as sending the generated call does. -/
theorem asks_generate {x : Action (Calldata m)} {send : Calldata m → Action Hash256} {stage : Stage}
    {operation : Operation} (hx : x.run.Confined fun q : Query => ¬ q.IsActing)
    (h : (reporting stage operation x >>= fun c => Wallet.deliver c (send c)).run.Asks t q)
    (hq : q.IsActing) : ∃ t₁ t₂ c, t = t₁ ++ t₂ ∧ x.run.Yields t₁ (.ok c) ∧
      ∃ t', t' <:+: t ∧ (send c).run.Asks t' q := by
  rcases asks_bind h with h₁ | ⟨t₁, t₂, c, rfl, h₁, h₂⟩
  · exact absurd hq (hx _ _ (asks_reporting h₁ hq))
  obtain ⟨t', ht', h'⟩ := Wallet.asks_deliver h₂ hq
  exact ⟨t₁, t₂, c, rfl, yields_reporting_ok h₁, t', ht'.trans (List.suffix_append _ _).isInfix, h'⟩

theorem asks_shield {amount : UInt256} {sender : Address}
    (h : (w.shield amount sender).run.Asks t q) (hq : q.IsActing) (ht : t.AnsweredBy f) :
    Acts f w o t q := by
  rcases asks_bind h with h₁ | ⟨t₁, t', a, rfl, h₁, h₂⟩
  · exact absurd hq (w.confined_account (K := fun q => ¬ q.IsActing) (fun h => h) _ _
      (asks_reporting h₁ hq))
  obtain ⟨item, rfl, hread⟩ := Wallet.yields_account (yields_reporting_ok h₁)
  have hprepared : ∀ {m : Movement} {c : Calldata m}, c.call.Continues f w.settings.version a →
      c.call.PreparedIn f w ([⟨.load w.register.key, .ok item⟩] ++ t') := fun hc =>
    ⟨item, a, by simp, hread, hc⟩
  have hinfix : t' <:+: [⟨.load w.register.key, .ok item⟩] ++ t' := (List.suffix_append _ _).isInfix
  split at h₂
  · obtain ⟨t₂, t₃, c, rfl, h₃, t₄, ht₄, h₄⟩ :=
      asks_generate (Opening.confined_prepare fun _ h => h) h₂ hq
    exact .send (ht₄.trans hinfix) h₄
      (.inl (hprepared (Opening.yields_prepare h₃ ht.right.left).1))
  · obtain ⟨t₂, t₃, c, rfl, h₃, t₄, ht₄, h₄⟩ :=
      asks_generate (Deposit.confined_prepare (fun _ h => h) fun _ h => h) h₂ hq
    exact .send (ht₄.trans hinfix) h₄
      (.inl (hprepared (Deposit.yields_prepare h₃ ht.right.left).1))

theorem asks_withdraw {amount fee : UInt256} {destination : Address}
    (h : (w.withdraw amount fee destination).run.Asks t q) (hq : q.IsActing) (ht : t.AnsweredBy f) :
    Acts f w o t q := by
  obtain ⟨t₁, t₂, c, rfl, h₁, t', ht', h'⟩ := asks_generate (by
    refine confined_bind (w.confined_account fun h => h) fun a => ?_
    refine confined_bind (confined_liftM _) fun _ => ?_
    refine confined_bind (confined_ofProgram (Query.confined_program fun h => h)) fun relayer => ?_
    exact Withdrawal.confined_prepare (fun _ h => h) fun _ h => h) h hq
  obtain ⟨t₃, t₄, a, rfl, h₃, h₄⟩ := yields_bind_ok h₁
  obtain ⟨item, rfl, hread⟩ := Wallet.yields_account h₃
  obtain ⟨t₅, t₆, u, rfl, -, h₆⟩ := yields_bind_ok h₄
  obtain ⟨t₇, t₈, relayer, rfl, -, h₈⟩ := yields_bind_ok h₆
  exact .relay ht' h' (.inl ⟨item, a, by simp, hread,
    (Withdrawal.yields_prepare h₈ ht.left.right.right.right).1⟩)

theorem asks_withdrawAlone {amount : UInt256} {destination sender : Address}
    (h : (w.withdrawAlone amount destination sender).run.Asks t q) (hq : q.IsActing)
    (ht : t.AnsweredBy f) : Acts f w o t q := by
  obtain ⟨t₁, t₂, c, rfl, h₁, t', ht', h'⟩ := asks_generate (by
    refine confined_bind (w.confined_account fun h => h) fun a => ?_
    exact Withdrawal.confined_prepare (fun _ h => h) fun _ h => h) h hq
  obtain ⟨t₃, t₄, a, rfl, h₃, h₄⟩ := yields_bind_ok h₁
  obtain ⟨item, rfl, hread⟩ := Wallet.yields_account h₃
  exact .send ht' h'
    (.inl ⟨item, a, by simp, hread, (Withdrawal.yields_prepare h₄ ht.left.right).1⟩)

theorem asks_discard {α : Type} {x : Action α} {r : Option ((m : Movement) × Calldata m)}
    (h : (x >>= fun _ => pure r).run.Asks t q) : x.run.Asks t q := by
  rcases asks_bind h with h | ⟨_, _, _, _, _, h⟩
  · exact h
  · exact absurd h (by simp)

/-- Whatever it is ordered to do, a wallet acts by a pass, or by sending a call that continues an
account it has loaded, or a call that it was given. -/
theorem asks_program (h : (o.program w).run.Asks t q) (hq : q.IsActing) (ht : t.AnsweredBy f) :
    (o = .sync ∧ w.sync.run.Asks t q) ∨ Acts f w o t q := by
  cases o with
  | shield amount sender => exact .inr (asks_shield (asks_discard h) hq ht)
  | withdraw amount fee destination => exact .inr (asks_withdraw (asks_discard h) hq ht)
  | withdrawAlone amount destination sender =>
    exact .inr (asks_withdrawAlone (asks_discard h) hq ht)
  | sync => exact .inl ⟨rfl, asks_discard h⟩
  | generate m amount terms expected =>
    rcases asks_bind h with h₁ | ⟨t₁, t₂, a, rfl, -, h₂⟩
    · exact absurd hq (w.confined_account (K := fun q => ¬ q.IsActing) (fun h => h) _ _ h₁)
    · rcases asks_bind h₂ with h₃ | ⟨_, _, _, _, _, h₃⟩
      · have hprepared : (prepared w a amount expected m terms).run.Confined
            fun q : Query => ¬ q.IsActing :=
          confined_prepared (fun _ h => h) (fun _ h => h) w a amount expected m terms
        exact absurd hq (hprepared _ _ h₃)
      · exact absurd h₃ (by simp)
  | send c sender => exact .inr (.send List.infix_rfl (asks_discard h) (.inr rfl))
  | relay c => exact .inr (.relay List.infix_rfl (asks_discard h) (.inr rfl))

/-- A call that a wallet was ordered to prepare continues an account it has loaded. -/
theorem yields_program {m : Movement} {c : Calldata m}
    (h : (o.program w).run.Yields t (.ok (some ⟨m, c⟩))) (ht : t.AnsweredBy f) :
    c.call.PreparedIn f w t := by
  have hnone : ∀ {α : Type} {x : Action α},
      ¬ (x >>= fun _ => pure none).run.Yields t
        (.ok (some (⟨m, c⟩ : (m : Movement) × Calldata m))) := by
    intro α x hx
    obtain ⟨_, _, _, _, _, hx⟩ := yields_bind_ok hx
    simp at hx
  cases o with
  | generate m' amount terms expected =>
    obtain ⟨t₁, t₂, a, rfl, h₁, h₂⟩ := yields_bind_ok h
    obtain ⟨item, rfl, hread⟩ := Wallet.yields_account h₁
    obtain ⟨t₃, t₄, c', rfl, h₃, h₄⟩ := yields_bind_ok h₂
    obtain ⟨rfl, hr⟩ := yields_pure_iff.1 h₄
    cases hr
    exact ⟨item, a, by simp, hread, yields_prepared h₃ ht.right.left⟩
  | _ => exact absurd h hnone

end Order

/-! ## Storing -/

/-- A question that stores nothing. -/
def Query.StoresNothing (q : Query) : Prop := ∀ key item, q ≠ .store key item

/-- A question of a wallet that is not to bring its account up to date: nothing is stored, and no
transaction is told. -/
def Query.IsOfMovement : Query → Prop
  | .store .. | .notify (.transaction _) => False
  | _ => True

theorem Query.IsOfMovement.storesNothing (h : q.IsOfMovement) : q.StoresNothing := by
  rintro key item rfl
  exact h

theorem Trace.reported_of_movement (h : ∀ x ∈ t, x.query.IsOfMovement) : t.reported = [] := by
  refine List.filterMap_eq_nil_iff.2 fun x hx => ?_
  obtain ⟨q, r⟩ := x
  cases q with
  | notify n =>
    cases n with
    | transaction x => exact absurd (h _ hx) id
    | _ => rfl
  | _ => rfl

theorem Calldata.confined_send (c : Calldata m) (sender : Address) :
    (c.send sender).run.Confined Query.IsOfMovement := by
  refine confined_bind (confined_contractOr trivial) fun data => ?_
  refine confined_bind ?_ fun target => confined_ofProgram (Query.confined_program trivial)
  exact (Query.confined_program trivial).bind fun _ => Program.confined_done _

theorem Calldata.confined_relay (c : Calldata .withdrawal) :
    c.relay.run.Confined Query.IsOfMovement :=
  confined_ofProgram (Query.confined_program trivial)

namespace Wallet

theorem confined_deliver {c : Calldata m} {send : Action Hash256}
    (hsend : send.run.Confined Query.IsOfMovement) :
    (deliver c send).run.Confined Query.IsOfMovement := by
  refine confined_bind (confined_notify trivial) fun _ => ?_
  refine confined_bind (confined_reporting (fun _ => trivial) hsend) fun txHash => ?_
  exact confined_bind (confined_notify trivial) fun _ => confined_pure _

/-- Generating a call and delivering it asks nothing else if neither does. -/
theorem confined_generate {x : Action (Calldata m)} {send : Calldata m → Action Hash256} {stage : Stage}
    {operation : Operation} (hx : x.run.Confined Query.IsOfMovement)
    (hsend : ∀ c, (send c).run.Confined Query.IsOfMovement) :
    (reporting stage operation x >>= fun c => Wallet.deliver c (send c)).run.Confined
      Query.IsOfMovement :=
  confined_bind (confined_reporting (fun _ => trivial) hx) fun c => confined_deliver (hsend c)

theorem confined_shield (w : Wallet) (amount : UInt256) (sender : Address) :
    (w.shield amount sender).run.Confined Query.IsOfMovement := by
  have haccount : w.account.run.Confined Query.IsOfMovement := w.confined_account trivial
  refine confined_bind (confined_reporting (fun _ => trivial) haccount) fun a => ?_
  split
  · exact confined_generate (Opening.confined_prepare fun _ => trivial) fun c => c.confined_send sender
  · exact confined_generate (Deposit.confined_prepare (fun _ => trivial) fun _ => trivial)
      fun c => c.confined_send sender

theorem confined_withdraw (w : Wallet) (amount fee : UInt256) (destination : Address) :
    (w.withdraw amount fee destination).run.Confined Query.IsOfMovement := by
  have haccount : w.account.run.Confined Query.IsOfMovement := w.confined_account trivial
  refine confined_generate ?_ fun c => c.confined_relay
  refine confined_bind haccount fun a => confined_bind (confined_liftM _) fun _ => ?_
  refine confined_bind (confined_ofProgram (Query.confined_program trivial)) fun relayer => ?_
  exact Withdrawal.confined_prepare (fun _ => trivial) fun _ => trivial

theorem confined_withdrawAlone (w : Wallet) (amount : UInt256) (destination sender : Address) :
    (w.withdrawAlone amount destination sender).run.Confined Query.IsOfMovement := by
  have haccount : w.account.run.Confined Query.IsOfMovement := w.confined_account trivial
  refine confined_generate ?_ fun c => c.confined_send sender
  refine confined_bind haccount fun a => ?_
  exact Withdrawal.confined_prepare (fun _ => trivial) fun _ => trivial

end Wallet

/-- A wallet that is not ordered to bring its account up to date stores nothing. -/
theorem Order.confined_program {o : Order} (ho : o ≠ .sync) :
    (o.program w).run.Confined Query.IsOfMovement := by
  cases o with
  | shield amount sender =>
    exact confined_bind (w.confined_shield amount sender) fun _ => confined_pure _
  | withdraw amount fee destination =>
    exact confined_bind (w.confined_withdraw amount fee destination) fun _ => confined_pure _
  | withdrawAlone amount destination sender =>
    exact confined_bind (w.confined_withdrawAlone amount destination sender) fun _ => confined_pure _
  | sync => exact absurd rfl ho
  | generate m amount terms expected =>
    refine confined_bind (w.confined_account trivial) fun a => ?_
    refine confined_bind ?_ fun c => confined_pure _
    exact confined_prepared (fun _ => trivial) (fun _ => trivial) w a amount expected m terms
  | send c sender => exact confined_bind (c.confined_send sender) fun _ => confined_pure _
  | relay c => exact confined_bind c.confined_relay fun _ => confined_pure _

end ShieldedWallet
