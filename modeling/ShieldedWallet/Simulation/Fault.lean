import ShieldedWallet.Action

/-!
# Planned faults

In a simulation any question can be made to fail before it reaches the party it is put to, at once
or after some more questions of its kind. Some answers can also be replaced.
-/

namespace ShieldedWallet.Simulation

/-- The kinds of questions to the prover. -/
inductive ProverKind where
  | hash
  | arity
  | treeHeight
  | secrets
  | keyElement
  | accountId
  | prove (m : Movement)
  | verify (m : Movement)
deriving DecidableEq

/-- The kinds of questions to the contract. -/
inductive ContractKind where
  | path
  | nullifierBlock
  | events
  | encode (m : Movement)
  | rate (k : FeeKind)
deriving DecidableEq

/-- The kinds of questions to the storage. -/
inductive StorageKind where
  | load
  | store
deriving DecidableEq

/-- The kinds of questions to the relayer. -/
inductive RelayerKind where
  | address
  | submit
  | quote
deriving DecidableEq

/-- The kind of a question to the prover. -/
def ProverKind.ofQuery : ProverQuery → ProverKind
  | .hash _ => .hash
  | .arity => .arity
  | .treeHeight => .treeHeight
  | .secrets _ _ => .secrets
  | .keyElement _ => .keyElement
  | .accountId _ _ => .accountId
  | .prove m _ => .prove m
  | .verify m _ _ => .verify m

/-- The kind of a question to the contract. -/
def ContractKind.ofQuery : ContractQuery → ContractKind
  | .path _ => .path
  | .nullifierBlock _ => .nullifierBlock
  | .events _ => .events
  | .encode m _ _ _ => .encode m
  | .rate k => .rate k

/-- The kind of a question to the relayer. -/
def RelayerKind.ofQuery : RelayerQuery → RelayerKind
  | .address => .address
  | .submit _ => .submit
  | .quote => .quote

/-- A failure planned for the questions of a kind. -/
structure Fault (Kind Cause : Type) where
  /-- The kind of the questions. -/
  kind : Kind
  /-- The failure. -/
  cause : Cause
  /-- How many more questions get through. -/
  skip : Nat

/-- The faults planned for a party, at most one for each kind of question. -/
abbrev Plan (Kind Cause : Type) := List (Fault Kind Cause)

namespace Plan

variable {Kind Cause : Type} [DecidableEq Kind]

/-- Plans a fault in place of the one of the same kind. -/
def add (p : Plan Kind Cause) (f : Fault Kind Cause) : Plan Kind Cause :=
  f :: p.filter (·.kind ≠ f.kind)

/-- The failure of a question, if it is to fail, and the plan from then on. -/
def meet (p : Plan Kind Cause) (kind : Kind) : Option Cause × Plan Kind Cause :=
  match p.find? (·.kind = kind) with
  | none => (none, p)
  | some f =>
    if f.skip = 0 then (some f.cause, p)
    else (none, p.map fun f => if f.kind = kind then { f with skip := f.skip - 1 } else f)

end Plan

/-- The planned faults of all parties. -/
structure Faults where
  prover : Plan ProverKind ProverFailure := []
  contract : Plan ContractKind ContractFailure := []
  storage : Plan StorageKind StorageFailure := []
  relayer : Plan RelayerKind RelayerFailure := []
  sender : Plan Unit String := []

inductive StatementPart where
  | firstNote
  /-- The hash of the identifier. -/
  | idHash
  /-- The first deposit. -/
  | deposit
  /-- The Merkle root. -/
  | root
  | nullifierHash
  | nextNote
  /-- The amount moved. -/
  | value
  /-- The commitment to the payout. -/
  | commitment
deriving DecidableEq

/-- A spending with one part increased by one, if it has the part. -/
def StatementPart.tamperSpend (part : StatementPart) (s : SpendStatement) : SpendStatement :=
  match part with
  | .root => { s with root := s.root.succ }
  | .nullifierHash => { s with nullifierHash := s.nullifierHash.succ }
  | .nextNote => { s with note := s.note.succ }
  | .value => { s with value := s.value.succ }
  | _ => s

/-- A statement with one part increased by one, if it has the part. -/
def StatementPart.tamper (part : StatementPart) : (m : Movement) → Statement m → Statement m
  | .opening, s =>
    match part with
    | .firstNote => { s with note := s.note.succ }
    | .idHash => { s with idHash := s.idHash.succ }
    | .deposit => { s with deposit := s.deposit.succ }
    | _ => s
  | .deposit, s => part.tamperSpend s
  | .withdrawal, s =>
    match part with
    | .commitment => { s with commitment := s.commitment.succ }
    | _ => { s with toSpendStatement := part.tamperSpend s.toSpendStatement }

/-- Answers given in place of the true ones. -/
structure Substitutes where
  /-- The arity of the hash. -/
  arity : Option Nat := none
  /-- The height of the note tree. -/
  treeHeight : Option Nat := none
  /-- The part of proved statements that is increased by one. -/
  tampered : Option StatementPart := none
  /-- Whether proofs are valid. -/
  valid : Option Bool := none
  /-- The path of every leaf. -/
  path : Option (List Scalar) := none
  /-- The block of every nullifier hash. -/
  nullifierBlock : Option (Option UInt64) := none
  /-- The events of some blocks. -/
  events : List (UInt64 × List NoteEvent) := []

namespace Substitutes

/-- The answer given in place of the prover's. -/
def proverAnswer? (s : Substitutes) : (q : ProverQuery) → Option q.Result
  | .arity => s.arity
  | .treeHeight => s.treeHeight
  | .verify _ _ _ => s.valid
  | _ => none

/-- The true answer of the prover with the statement tampered with. -/
def tamperAnswer (s : Substitutes) :
    (q : ProverQuery) → Except ProverFailure q.Result → Except ProverFailure q.Result
  | .prove m _, answer =>
    match s.tampered with
    | none => answer
    | some part => answer.map fun (proof, stated) => (proof, part.tamper m stated)
  | _, answer => answer

/-- The answer given in place of the contract's. -/
def contractAnswer? (s : Substitutes) : (q : ContractQuery) → Option q.Result
  | .path _ => s.path
  | .nullifierBlock _ => s.nullifierBlock
  | .events block => s.events.lookup block
  | _ => none

end Substitutes

end ShieldedWallet.Simulation
