import ShieldedWallet.Action

/-!
# Merkle paths

To spend a note its owner shows the path from the note up to a root of the note tree. The contract
hands out the nodes of the path, the leaf first and the root last.
-/

namespace ShieldedWallet.Note

open ShieldedWallet.Action

/-- The nodes of a path as the bytes given to the prover. -/
def pathBytes (nodes : List Scalar) : Bytes := nodes.flatMap fun node => node.toBytes.toList

/-- Splits a path into the bytes of its nodes and its root. -/
def splitPath (path : List Scalar) : Action (Bytes × Scalar) := do
  let height ← prover .treeHeight
  let arity ← prover .arity
  let expected := height * arity + 1
  if path.length ≠ expected then throw (.pathLength expected path.length)
  match path.getLast? with
  | none => throw (.pathLength expected 0)
  | some root => return (pathBytes path.dropLast, root)

/-- The holding of an account together with the path of its current note, which has to be the leaf
of the path. -/
def onChainPath (a : Account) : Action (Holding × List Scalar) :=
  match a with
  | .unopened _ => throw (.notOnChain "account has no note")
  | .opened h =>
    match h.noteIndex with
    | none => throw (.notOnChain "current note has not been observed on chain")
    | some index => do
      let n := Numeral.decimal index.toNat
      let unreachable := Failure.notOnChain
        ("failed to fetch merkle path for account state with index " ++ n)
      let path ← contractOr (fun _ => unreachable) (.path index)
      if path.head? = some h.note then return (h, path)
      else throw (.notOnChain
        ("account state with merkle index " ++ n ++ " does not match on-chain data"))

end ShieldedWallet.Note
