import ShieldedWallet.Proofs.Simulation.Acting
import ShieldedWallet.Proofs.Simulation.Refusing

/-!
# Upgrades of the ledger

The ledger compares the version of a call with the deployed one when it encodes the call, and puts the
deployed version on the event when it executes the call. In between another version may be deployed,
and nothing stops the call then: it is executed under any version, with the same hash and the same
effects, and its event carries the version deployed by that time.
-/

namespace ShieldedWallet.Simulation

namespace Ledger

variable {l l' : Ledger} {tx : TransactionRequest} {n : Nat} {m : Movement} {c c' : Call m}
  {hash : Hash256} {version : ContractVersion}

/-! ## Accepting a transaction -/

/-- A transaction brings a call that the ledger can execute. -/
structure Brings (l : Ledger) (tx : TransactionRequest) (n : Nat) (c : Call m) : Prop where
  brought : l.brought? tx = some (n, ⟨m, c⟩)
  value_eq : tx.value = m.attached c.amount
  known : ∀ root, c.root? = some root → root ∈ l.roots
  fresh : l.nullifierBlock? c.key = none

theorem known_of_perform (h : l.perform m c = .ok (hash, l')) :
    ∀ root, c.root? = some root → root ∈ l.roots := by
  intro root hroot
  cases m with
  | opening => cases hroot
  | deposit =>
    obtain rfl := Option.some.inj hroot
    by_contra hmem
    rw [perform, if_neg hmem] at h
    cases h
  | withdrawal =>
    obtain rfl := Option.some.inj hroot
    by_contra hmem
    rw [perform, if_neg hmem] at h
    cases h

theorem Brings.execute (h : l.Brings tx n c) :
    (l.execute tx).1 = .ok (l.eventOf c).txHash ∧ l.Accepts c (l.execute tx).2 := by
  have hperform := (perform_eq (l := l.used n) h.known).trans (append_ok h.fresh)
  rcases execute_of_brought? h.brought with ⟨hrefused, -⟩ | ⟨-, hash, l', hp, he⟩
  · obtain ⟨reason, hp⟩ := hrefused h.value_eq
    rw [hperform] at hp
    cases hp
  · rw [hperform] at hp
    obtain ⟨rfl, rfl⟩ := Prod.mk.inj (Except.ok.inj hp)
    rw [he]
    exact ⟨rfl, rfl, rfl, rfl, by simp [used]⟩

/-- An accepted transaction has brought a call that the ledger could execute. -/
theorem brings_of_execute (h : (l.execute tx).1 = .ok hash) :
    ∃ (n : Nat) (m : Movement) (c : Call m), l.Brings tx n c ∧ hash = (l.eventOf c).txHash := by
  cases hbrought : l.brought? tx with
  | none =>
    obtain ⟨reason, he⟩ := execute_of_brought?_none hbrought
    rw [he] at h
    cases h
  | some nc =>
    obtain ⟨n, m, c⟩ := nc
    rcases execute_of_brought? hbrought with ⟨-, reason, he⟩ | ⟨hvalue, hash', l', hp, he⟩
    · rw [he] at h
      cases h
    · have hknown : ∀ root, c.root? = some root → root ∈ l.roots :=
        known_of_perform (l := l.used n) hp
      obtain ⟨hnew, -, -⟩ := append_eq_ok (perform_eq_ok hp)
      have hbrings : l.Brings tx n c :=
        ⟨hbrought, hvalue, hknown, nullifierBlock?_eq_none_iff.2 hnew⟩
      refine ⟨n, m, c, hbrings, ?_⟩
      rw [hbrings.execute.1] at h
      exact (Except.ok.inj h).symm

/-- The deployed version decides nothing when a transaction is executed. -/
theorem Brings.deploy (h : l.Brings tx n c) (deployed : ContractVersion) :
    ({ l with version := deployed } : Ledger).Brings tx n c :=
  ⟨h.brought, h.value_eq, h.known, h.fresh⟩

/-! ## The deployed version -/

theorem version_execute (l : Ledger) (tx : TransactionRequest) :
    (l.execute tx).2.version = l.version := by
  rcases execute_cases l tx with ⟨_, -, he | ⟨n, he⟩⟩ | ⟨n, m, c, hash, l', -, -, hp, he⟩
  · rw [he]
  · rw [he]
    rfl
  · obtain ⟨-, -, rfl⟩ := append_eq_ok (perform_eq_ok hp)
    rw [he]
    rfl

theorem version_register (l : Ledger) (id : Scalar) (amount : UInt256) :
    ((Operation.register id amount).apply l).version = l.version := by
  simp only [Operation.apply, register]
  cases ha : l.append .opening amount ((registered id amount).note?.getD 0) (Simulation.hash [id])
      none none with
  | error reason => rfl
  | ok r =>
    obtain ⟨a, l'⟩ := r
    obtain ⟨-, -, rfl⟩ := append_eq_ok ha
    rfl

/-- Another version is only deployed by its keeper. -/
theorem version_act (act : Act) (l : Ledger) : (act.apply l).version = l.version ∨
    ∃ version, act = .operation (.setVersion version) ∧ (act.apply l).version = version := by
  cases act with
  | repeatLastEvent => exact .inl rfl
  | operation o =>
    cases o with
    | ask q => exact .inl (unchanged_answer l q).2
    | execute tx => exact .inl (version_execute l tx)
    | register id amount => exact .inl (version_register l id amount)
    | setVersion version => exact .inr ⟨version, rfl, rfl⟩
    | _ => exact .inl rfl

theorem version_after {acts : List Act}
    (h : ∀ version, .operation (.setVersion version) ∈ acts → version = l.version) :
    (l.after acts).version = l.version := by
  induction acts generalizing l with
  | nil => rfl
  | cons act acts ih =>
    have hact : (act.apply l).version = l.version := by
      rcases version_act act l with hsame | ⟨version, rfl, hversion⟩
      · exact hsame
      · rw [hversion, h version List.mem_cons_self]
    rw [after, ih fun version hmem => ?_, hact]
    rw [hact]
    exact h version (List.mem_cons_of_mem act hmem)

/-! ## Pending calls -/

/-- A call has the same event before and after it is checked. -/
theorem eventOf_checked (h : checkedCall version m c = .ok c') (l : Ledger) :
    l.eventOf c' = l.eventOf c := by
  obtain ⟨hamount, hnote, -⟩ := checkedCall_eq_ok h
  have hpayout : payout c' = payout c := by
    cases m with
    | withdrawal =>
      simp only [checkedCall] at h
      split at h
      · cases h
      · split at h
        · cases h
          rfl
        · cases h
    | _ => rfl
  rw [eventOf, eventOf, hamount, hnote, hpayout]

theorem Encodes.after {data : Bytes} (h : l.Encodes version c data) (acts : List Act) :
    (l.after acts).Encodes version c data := by
  obtain ⟨hlength, hcall⟩ := call?_after l acts
  obtain ⟨n, hn, hdata, c', hc, hd⟩ := h
  exact ⟨n, Nat.lt_of_lt_of_le hn hlength, hdata, c', hc, fun d hd' => hd d (hcall n hn d hd')⟩

/-- What a transaction with the data of a call brings is the call as it was checked. -/
theorem Encodes.of_brings {m' : Movement} {d : Call m'} {data : Bytes}
    (h : l.Encodes version c data) (hd : l.Brings tx n d) (hdata : tx.data = data) :
    ∃ c', checkedCall version m c = .ok c' ∧ l.Brings tx n c' := by
  obtain ⟨k, -, hk, c', hc, hcall⟩ := h
  obtain ⟨-, hn, hbrought⟩ := brought?_eq_some_iff.1 hd.brought
  rw [hdata, hk, Option.some.injEq] at hn
  subst hn
  cases hcall _ hbrought
  exact ⟨c', hc, hd⟩

theorem Accepts.of_checked (h : l.Accepts c' l') (hc : checkedCall version m c = .ok c') :
    l.Accepts c l' := by
  obtain ⟨-, hnote, hkey⟩ := checkedCall_eq_ok hc
  refine ⟨h.version_eq, ?_, ?_, h.encoded_le⟩
  · rw [h.leaves_eq, hnote]
  · rw [h.blocks_eq, hkey, eventOf_checked hc]

theorem version_of_encoded {sender : Address} {data : Bytes}
    (h : (l.answer (.encode m version sender c)).1 = .ok data) : version = l.version := by
  by_contra hne
  rw [answer_outdated hne] at h
  cases h

/-- Let a call be encoded for a version during a run, and be executed at its end. The version was
deployed when the call was encoded, and still is unless the keeper has deployed another one. But the
event carries the version that is deployed when the call is executed, and whichever that is, the call is
accepted with the same hash and nothing else is different. -/
theorem executed_under_any_version {before later : List Act} {sender : Address} {data : Bytes}
    (hencoded : ((({} : Ledger).after before).answer (.encode m version sender c)).1 = .ok data)
    (hl : ({} : Ledger).after (before ++ .operation (.ask (.encode m version sender c)) :: later) = l)
    (hlen : l.encoded.length ≤ UInt64.size) (hdata : tx.data = data)
    (hexecuted : (l.execute tx).1 = .ok hash) :
    version = (({} : Ledger).after before).version ∧
      ((∀ deployed, .operation (.setVersion deployed) ∈ later → deployed = version) →
        l.version = version) ∧
      l.Accepts c (l.execute tx).2 ∧ (l.eventOf c).version = l.version ∧
      ∀ deployed, let l' : Ledger := { l with version := deployed }
        (l'.execute tx).1 = .ok hash ∧ l'.Accepts c (l'.execute tx).2 ∧
          l'.eventOf c = { l.eventOf c with version := deployed } := by
  let l₁ := ((({} : Ledger).after before).answer (.encode m version sender c)).2
  have hafter : l₁.after later = l := by
    rw [← hl, after_append]
    rfl
  have hversion := version_of_encoded hencoded
  have hlen₁ : l₁.encoded.length ≤ UInt64.size := by
    rw [← hafter] at hlen
    exact Nat.le_trans (call?_after l₁ later).1 hlen
  have hencodes : l.Encodes version c data := hafter ▸ (encodes_answer hencoded hlen₁).after later
  obtain ⟨n, m', d, hd, rfl⟩ := brings_of_execute hexecuted
  obtain ⟨c', hc, hbrings⟩ := hencodes.of_brings hd hdata
  have haccepts := hbrings.execute
  refine ⟨hversion, fun hlater => ?_, haccepts.2.of_checked hc, rfl, fun deployed => ?_⟩
  · have hdeployed : l₁.version = version := (unchanged_answer _ _).2.trans hversion.symm
    rw [← hafter, version_after (hdeployed ▸ hlater), hdeployed]
  · obtain ⟨hhash, haccepts'⟩ := (hbrings.deploy deployed).execute
    refine ⟨?_, haccepts'.of_checked hc, rfl⟩
    rw [hhash]
    exact haccepts.1.symm.trans hexecuted

theorem Admits.apply_encode (h : l.Admits version c) (sender : Address) :
    (Act.operation (.ask (.encode m version sender c))).apply l = l.encoding c :=
  congrArg Prod.snd (h.toVets.encode sender h.checked)

/-- What the ledger admits can be brought to it once it is encoded. -/
theorem Admits.brings {version : ContractVersion} (h : l.Admits version c) (sender : Address) :
    (l.encoding c).Brings ⟨sender, address, Bytes.ofNatBE 8 l.encoded.length, m.attached c.amount⟩
      l.encoded.length c := by
  have hcall : (l.encoding c).call? l.encoded.length = some ⟨m, c⟩ := by
    simp [call?, encoding]
  exact ⟨brought?_eq_some_iff.2 ⟨rfl, callNumber?_ofNatBE h.room, hcall⟩, rfl, h.known, h.fresh⟩

/-- Whatever the ledger admits is encoded, and still brought to it after an upgrade. -/
theorem Admits.brings_upgraded (h : l.Admits version c) (sender : Address)
    (deployed : ContractVersion) :
    let l' := l.after
      [.operation (.ask (.encode m version sender c)), .operation (.setVersion deployed)]
    l'.encoded.length = l.encoded.length + 1 ∧
      l'.Brings ⟨sender, address, Bytes.ofNatBE 8 l.encoded.length, m.attached c.amount⟩
        l.encoded.length c := by
  intro l'
  have hl' : l' = { l.encoding c with version := deployed } :=
    congrArg (fun l : Ledger => { l with version := deployed }) (h.apply_encode sender)
  rw [hl']
  exact ⟨by simp [encoding], (h.brings sender).deploy deployed⟩

/-- What is proved of the account 7 when it is opened with 100. -/
def openingStatement7 : OpeningStatement :=
  ⟨note 7 (secrets 7 0) (.ofUInt256 100), Simulation.hash [7], .ofUInt256 100⟩

/-- The call that opens the account 7 with 100. -/
def opening7 : Call .opening := ⟨openingStatement7, proof .opening openingStatement7, 100, ()⟩

/-- An empty ledger admits the call that opens the account 7. -/
theorem admits_opening7 : ({} : Ledger).Admits .supported opening7 where
  version_eq := rfl
  checked := by
    have hdeposit : opening7.statement.deposit = .ofUInt256 opening7.amount := by
      simp only [opening7, openingStatement7]
    have hproof : opening7.proof = proof .opening opening7.statement := by
      simp only [opening7]
    simp only [checkedCall, if_pos (And.intro hdeposit hproof)]
  known := by
    rintro root ⟨⟩
  room := (by decide : 0 < UInt64.size)
  fresh := nullifierBlock?_eq_none_iff.2 (by simp)

/-- The call is encoded for the supported version. Then another version is deployed, and the call is
accepted all the same. -/
theorem executed_under_upgraded7 :
    let upgraded : ContractVersion := ⟨#v[0x00, 0x00, 0x02]⟩
    let query : ContractQuery := .encode .opening .supported address opening7
    let l := ({} : Ledger).after [.operation (.ask query), .operation (.setVersion upgraded)]
    let tx : TransactionRequest := ⟨address, address, Bytes.ofNatBE 8 0, 100⟩
    (({} : Ledger).answer query).1 = .ok tx.data ∧ (∃ hash, (l.execute tx).1 = .ok hash) ∧
      l.Accepts opening7 (l.execute tx).2 ∧ (l.eventOf opening7).version = upgraded ∧
      upgraded ≠ .supported := by
  intro upgraded query l tx
  obtain ⟨hlength, hbrings⟩ := admits_opening7.brings_upgraded address upgraded
  have hencoded : ((({} : Ledger).after []).answer query).1 = .ok tx.data :=
    congrArg Prod.fst (admits_opening7.toVets.encode address admits_opening7.checked)
  have hlen : l.encoded.length ≤ UInt64.size := by
    rw [hlength]
    decide
  have hversion : l.version = upgraded := rfl
  have hafter : ({} : Ledger).after
      ([] ++ .operation (.ask query) :: [.operation (.setVersion upgraded)]) = l := by
    rw [List.nil_append]
  obtain ⟨-, -, haccepts, hevent, -⟩ :=
    executed_under_any_version hencoded hafter hlen rfl hbrings.execute.1
  exact ⟨hencoded, ⟨_, hbrings.execute.1⟩, haccepts, hevent.trans hversion, by decide⟩

end Ledger

end ShieldedWallet.Simulation
