import ShieldedWallet.Proofs.History.Untrusted
import ShieldedWallet.Proofs.Simulation.Asking

/-!
# Proving a movement

The wallet computes with amounts and the prover with their residues. Where the prover has a new balance
at all, it is the residue of the wallet's, so that both make the same note and the ledger finds the
statement that was proved. A withdrawal has none if the residue of the amount exceeds that of the
balance, even though the balance covers the amount.
-/

namespace ShieldedWallet.Simulation

/-! ## Paths -/

theorem pathBytes_cons (node : Scalar) (nodes : List Scalar) :
    Note.pathBytes (node :: nodes) = node.toBytes.toList ++ Note.pathBytes nodes := by
  simp [Note.pathBytes]

theorem length_pathBytes (nodes : List Scalar) :
    (Note.pathBytes nodes).length = 32 * nodes.length := by
  induction nodes with
  | nil => rfl
  | cons node nodes ih =>
    rw [pathBytes_cons, List.length_append, ih, Vector.length_toList, List.length_cons]
    omega

/-- The prover reads the nodes that the wallet has written. -/
theorem readNodes?_pathBytes (nodes : List Scalar) :
    readNodes? nodes.length (Note.pathBytes nodes) = some nodes := by
  induction nodes with
  | nil => rfl
  | cons node nodes ih =>
    have hlen : node.toBytes.toList.length = 32 := Vector.length_toList
    have htake : (Note.pathBytes (node :: nodes)).take 32 = node.toBytes.toList := by
      rw [pathBytes_cons, List.take_left' hlen]
    have hdrop : (Note.pathBytes (node :: nodes)).drop 32 = Note.pathBytes nodes := by
      rw [pathBytes_cons, List.drop_left' hlen]
    have hnode : Scalar.ofBytes? node.toBytes = some node := Scalar.ofBytes?_eq_some_iff.2 rfl
    rw [List.length_cons, readNodes?, htake, hdrop, ih, Bytes.toFixed?_toList, Option.bind_some, hnode]
    rfl

theorem pathNodes?_pathBytes {nodes : List Scalar} (h : nodes ≠ []) :
    pathNodes? (Note.pathBytes nodes) = some nodes := by
  have hlen := length_pathBytes nodes
  have hpos := List.length_pos_iff.2 h
  have hne : ¬ (Note.pathBytes nodes = [] ∨ (Note.pathBytes nodes).length % 32 ≠ 0) := by
    rintro (hnil | hmod)
    · rw [hnil, List.length_nil] at hlen
      omega
    · omega
  have hcount : 32 * nodes.length / 32 = nodes.length := by omega
  rw [pathNodes?, if_neg hne, hlen, hcount, readNodes?_pathBytes]

/-! ## Residues -/

/-- The new balance that the prover computes. -/
def provedBalance? (m : Movement) (balance amount : UInt256) : Option UInt256 :=
  m.balanceAfter? (Scalar.ofUInt256 balance).toUInt256 (Scalar.ofUInt256 amount).toUInt256

variable {m : Movement} {balance amount left b : UInt256}

/-- The prover's new balance and the wallet's have the same residue. -/
theorem ofUInt256_provedBalance (hb : m.balanceAfter? balance amount = some b)
    (hl : provedBalance? m balance amount = some left) :
    Scalar.ofUInt256 left = Scalar.ofUInt256 b := by
  rw [Scalar.ext_iff, Scalar.toNat_ofUInt256, Scalar.toNat_ofUInt256]
  cases m with
  | opening =>
    obtain rfl : amount = b := Option.some.inj hb
    obtain rfl := Option.some.inj hl
    exact Nat.mod_mod _ _
  | deposit =>
    have hsum := UInt256.add?_eq_some_iff.1 hb
    have hresidues := UInt256.add?_eq_some_iff.1 hl
    simp only [Scalar.toNat_toUInt256, Scalar.toNat_ofUInt256] at hresidues
    rw [← hsum, ← hresidues, Nat.add_mod balance.toNat]
  | withdrawal =>
    have hdifference := UInt256.sub?_eq_some_iff.1 hb
    have hresidues := UInt256.sub?_eq_some_iff.1 hl
    simp only [Scalar.toNat_toUInt256, Scalar.toNat_ofUInt256, Scalar.modulus] at hresidues ⊢
    omega

/-- The prover has no new balance only if the residue of a withdrawn amount is too large. -/
theorem provedBalance?_eq_none_iff : provedBalance? m balance amount = none ↔
    m = .withdrawal ∧ balance.toNat % Scalar.modulus < amount.toNat % Scalar.modulus := by
  cases m with
  | opening => simp [provedBalance?, Movement.balanceAfter?]
  | deposit =>
    have hbalance := Nat.mod_lt balance.toNat (show Scalar.modulus > 0 by decide)
    have hamount := Nat.mod_lt amount.toNat (show Scalar.modulus > 0 by decide)
    have hfits : Scalar.modulus + Scalar.modulus < UInt256.size := by decide
    simp only [provedBalance?, Movement.balanceAfter?, UInt256.add?_eq_none_iff,
      Scalar.toNat_toUInt256, Scalar.toNat_ofUInt256, reduceCtorEq, false_and, iff_false]
    omega
  | withdrawal =>
    simp only [provedBalance?, Movement.balanceAfter?, UInt256.sub?_eq_none_iff,
      Scalar.toNat_toUInt256, Scalar.toNat_ofUInt256, true_and]

/-! ## Gathering -/

section Eval

open ShieldedWallet.Action

variable {o : Oracle surroundings} {version : ContractVersion} {a : Account} {h : Holding}
  {index : UInt64}

theorem eval_splitPath (ho : ∀ q, o (.prover q) = simulated q) {path : List Scalar} {root : Scalar}
    (hlen : path.length = treeHeight * arity + 1) (hroot : path.getLast? = some root) :
    (Note.splitPath path).run.eval o = .ok (Note.pathBytes path.dropLast, root) := by
  rw [Note.splitPath, eval_bind_ok (eval_prover_ok (ho .treeHeight)),
    eval_bind_ok (eval_prover_ok (ho .arity))]
  simp only [hlen, ne_eq, not_true_eq_false, if_false, hroot]
  rfl

theorem eval_onChainPath {path : List Scalar} (hi : h.noteIndex = some index)
    (hpath : o (.contract (.path index)) = .ok path) (hhead : path.head? = some h.note) :
    (Note.onChainPath (.opened h)).run.eval o = .ok (h, path) := by
  simp only [Note.onChainPath, hi]
  rw [eval_bind_ok (eval_contractOr_ok hpath), if_pos hhead]
  rfl

/-- What is gathered to move the holding to the balance `b`, if `nodes` are the path of its note. -/
def spending (h : Holding) (nodes : List Scalar) (amount b : UInt256) : Spending where
  witness := ⟨h.id, secrets h.id (h.nonce - 1), .ofUInt256 h.balance, Note.pathBytes nodes,
    .ofUInt256 amount, secrets h.id h.nonce⟩
  root := merkleRoot nodes
  note := note h.id (secrets h.id h.nonce) (.ofUInt256 b)

theorem eval_statement (ho : ∀ q, o (.prover q) = simulated q) (s : Spending) :
    s.statement.run.eval o =
      .ok ⟨s.root, hash [s.witness.spent.nullifier], s.note, s.witness.value⟩ := by
  have hhash : o (.prover (.hash [s.witness.spent.nullifier])) =
      .ok (hash [s.witness.spent.nullifier]) := (ho _).trans (simulated_hash_one _)
  rw [Spending.statement, Note.hashOne, eval_bind_ok (eval_prover_ok hhash)]
  rfl

/-- What a movement of the holding needs is gathered from the path of its note. -/
theorem eval_gather (ho : ∀ q, o (.prover q) = simulated q) (h0 : h.nonce ≠ 0)
    (hn : h.nonce ≠ Note.maxNonce) (hb : m.balanceAfter? h.balance amount = some b) {created : Scalar}
    (hcreated : Note.IsNote simulated version h.id h.nonce b created) (hi : h.noteIndex = some index)
    (hpath : o (.contract (.path index)) =
      .ok (Ledger.pathNodes h.note index ++ [merkleRoot (Ledger.pathNodes h.note index)]))
    (impossible : Failure) :
    (Spending.gather version m (.opened h) amount impossible).run.eval o =
      .ok { spending h (Ledger.pathNodes h.note index) amount b with note := created } := by
  let nodes := Ledger.pathNodes h.note index
  have hnext : (Note.next? version m (.opened h) amount).run.eval o =
      .ok (some (.opened ⟨h.id, h.nonce + 1, b, created, none⟩)) := eval_note ho hb hn hcreated
  have honchain : (Note.onChainPath (.opened h)).run.eval o =
      .ok (h, nodes ++ [merkleRoot nodes]) := eval_onChainPath hi hpath rfl
  have hsplit : (Note.splitPath (nodes ++ [merkleRoot nodes])).run.eval o =
      .ok (Note.pathBytes nodes, merkleRoot nodes) := by
    have hlen : (nodes ++ [merkleRoot nodes]).length = treeHeight * arity + 1 := by
      simp [nodes, Ledger.pathNodes, treeHeight, arity]
    have hroot : (nodes ++ [merkleRoot nodes]).getLast? = some (merkleRoot nodes) := by simp
    rw [eval_splitPath ho hlen hroot, List.dropLast_concat]
  have hnonce : (liftM h.noteNonce : Action UInt64).run.eval o = .ok (h.nonce - 1) := by
    simp [Holding.noteNonce, Holding.noteNonce?, h0]
  rw [Spending.gather, eval_bind_ok hnext]
  show (Note.onChainPath (.opened h) >>= _ : Action Spending).run.eval o = _
  rw [eval_bind_ok honchain]
  show (Note.splitPath (nodes ++ [merkleRoot nodes]) >>= _ : Action Spending).run.eval o = _
  rw [eval_bind_ok hsplit, eval_bind_ok hnonce, eval_bind_ok (eval_prover_ok (ho _)),
    eval_bind_ok (eval_prover_ok (ho _))]
  rfl

/-- The statement of a spending of the note that `nodes` are the path of, with the new note `created`. -/
def spendStatement (h : Holding) (nodes : List Scalar) (amount : UInt256) (created : Scalar) :
    SpendStatement :=
  ⟨merkleRoot nodes, hash [(secrets h.id (h.nonce - 1)).nullifier], created, .ofUInt256 amount⟩

/-- The prover makes a statement of what was gathered if the spent note belongs to the holding. -/
theorem spend_spending {nodes : List Scalar} (hnodes : nodes.head? = some h.note) (amount b left : UInt256) :
    spend (spending h nodes amount b).witness (some left) =
      if h.note = note h.id (secrets h.id (h.nonce - 1)) (.ofUInt256 h.balance) then
        .ok (spendStatement h nodes amount (note h.id (secrets h.id h.nonce) (.ofUInt256 left)))
      else .error (.backend "merkle path does not open the spent note") := by
  have hpath : pathNodes? (Note.pathBytes nodes) = some nodes := by
    refine pathNodes?_pathBytes ?_
    rintro rfl
    cases hnodes
  simp only [spend, spending, spendStatement, hpath, hnodes, Option.some.injEq]

/-! ## Certifying -/

theorem eval_certify (ho : ∀ q, o (.prover q) = simulated q) {w : Witness m}
    {statement : Action (Statement m)} {stated : Statement m}
    (hproved : statement? m w = .ok stated) (hstated : statement.run.eval o = .ok stated) :
    (Calldata.certify m w statement).run.eval o = .ok (stated, proof m stated) := by
  have hanswer : o (.prover (.prove m w)) = .ok (proof m stated, stated) := by
    rw [ho]
    simp only [simulated, proverAnswer, hproved]
    rfl
  have hprove : (ofProgram (fun f => .whileProving m (.prover f))
      (Query.prover (.prove m w)).program).run.eval o = .ok (proof m stated, stated) :=
    eval_ofProgram_ok hanswer
  have hverify : o (.prover (.verify m (proof m stated) stated)) = .ok true := by
    rw [ho]
    simp [simulated, proverAnswer]
  rw [Calldata.certify, eval_bind_ok hprove]
  show (statement >>= _ : Action (Statement m × Bytes)).run.eval o = _
  rw [eval_bind_ok hstated]
  simp only [ne_eq, not_true_eq_false, if_false]
  show (Action.prover _ >>= _ : Action (Statement m × Bytes)).run.eval o = _
  rw [eval_bind_ok (eval_prover_ok hverify)]
  rfl

/-- Another statement than the one that was proved is not certified. -/
theorem eval_certify_mismatch (ho : ∀ q, o (.prover q) = simulated q) {w : Witness m}
    {statement : Action (Statement m)} {proved stated : Statement m}
    (hproved : statement? m w = .ok proved) (hstated : statement.run.eval o = .ok stated)
    (hne : proved ≠ stated) :
    (Calldata.certify m w statement).run.eval o = .error (.statementMismatch m) := by
  have hanswer : o (.prover (.prove m w)) = .ok (proof m proved, proved) := by
    rw [ho]
    simp only [simulated, proverAnswer, hproved]
    rfl
  have hprove : (ofProgram (fun f => .whileProving m (.prover f))
      (Query.prover (.prove m w)).program).run.eval o = .ok (proof m proved, proved) :=
    eval_ofProgram_ok hanswer
  rw [Calldata.certify, eval_bind_ok hprove]
  show (statement >>= _ : Action (Statement m × Bytes)).run.eval o = _
  rw [eval_bind_ok hstated]
  simp only [ne_eq, hne, not_false_eq_true, if_true]
  exact eval_bind_error rfl

theorem eval_certify_error (ho : ∀ q, o (.prover q) = simulated q) {w : Witness m}
    {statement : Action (Statement m)} {e : ProverFailure} (hproved : statement? m w = .error e) :
    (Calldata.certify m w statement).run.eval o = .error (.whileProving m (.prover e)) := by
  have hprove : o (.prover (.prove m w)) = .error e := by
    rw [ho]
    simp only [simulated, proverAnswer, hproved]
    rfl
  exact eval_bind_error (eval_ofProgram_error hprove)

end Eval

end ShieldedWallet.Simulation
