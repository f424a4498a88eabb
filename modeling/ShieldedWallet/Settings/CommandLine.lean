import ShieldedWallet.Settings.Basic

/-!
# Settings on the command line

Each setting has a long option, written `--name=value` or `--name value`. A separate value must not
look like an option: it does not begin with a dash, unless it is a single dash. There are no
positional arguments and no abbreviations, and `--` ends the options.

Arguments are taken one by one. A value that was attached to its option is checked at once; an
option with a separate value is settled when the next option comes, or at the end. An argument that
fits nothing is reported at once, whatever is not settled yet.
-/

namespace ShieldedWallet.Settings

/-- The options. -/
inductive Key where
  | chainId
  | contractVersion
  | storageKey
  | relayerUrl
deriving DecidableEq

/-- The name of an option, without its dashes. -/
def Key.name : Key → String
  | .chainId => "chain-id"
  | .contractVersion => "contract-version"
  | .storageKey => "storage-key"
  | .relayerUrl => "relayer-url"

/-- The option with the name `cs`. -/
def Key.ofName? (cs : List Char) : Option Key :=
  [Key.chainId, .contractVersion, .storageKey, .relayerUrl].find? fun k => k.name.toList = cs

/-- Why a command line gives no settings. -/
inductive Refusal where
  /-- An argument is neither an option nor the value of one. -/
  | unknownArgument
  /-- An option lacks its value. -/
  | missingValue
  /-- The value of an option has the wrong form. -/
  | malformedValue
  /-- An option is given twice. -/
  | repeatedOption
  /-- The chain is not given. -/
  | missingOption
  /-- The request for help was given a value. -/
  | superfluousValue
  /-- Help is asked for. -/
  | helpRequested
deriving DecidableEq

/-- The options given so far. -/
structure Given where
  chainId : Option UInt64 := none
  version : Option ContractVersion := none
  storageKey : Option String := none
  relayerUrl : Option String := none
deriving DecidableEq

namespace Given

/-- Whether the option `k` has been given. -/
def has (g : Given) : Key → Bool
  | .chainId => g.chainId.isSome
  | .contractVersion => g.version.isSome
  | .storageKey => g.storageKey.isSome
  | .relayerUrl => g.relayerUrl.isSome

/-- The option `k` with the value `v`, if `v` has the form that `k` needs. -/
def set? (g : Given) (k : Key) (v : String) : Option Given :=
  match k with
  | .chainId => (Numeral.word64? v).map fun n => { g with chainId := some n }
  | .contractVersion => (ContractVersion.ofText? v).map fun n => { g with version := some n }
  | .storageKey => some { g with storageKey := some v }
  | .relayerUrl => some { g with relayerUrl := some v }

/-- Gives the option `k` the value `v`. -/
def add (g : Given) (k : Key) (v : String) : Except Refusal Given :=
  if g.has k then .error .repeatedOption
  else match g.set? k v with
    | some g => .ok g
    | none => .error .malformedValue

/-- The settings, those that are not given having their defaults. -/
def settings (g : Given) : Except Refusal Settings :=
  match g.chainId with
  | none => .error .missingOption
  | some chainId => .ok {
      chainId := chainId
      version := g.version.getD .supported
      storageKey := g.storageKey.getD defaultStorageKey
      relayerUrl := g.relayerUrl }

end Given

/-- The form of an argument. -/
inductive Argument where
  /-- The end of the options. -/
  | terminator
  /-- A long option with the name `name`, and the value attached to it. -/
  | long (name : List Char) (attached : Option String)
  /-- A group of short options beginning with `first`. -/
  | short (first : Char)
  /-- Anything else. -/
  | plain (value : String)
deriving DecidableEq

/-- The characters before the first equals sign, and those behind it. -/
def splitAttached (cs : List Char) : List Char × Option String :=
  (cs.takeWhile (· ≠ '='),
    match cs.dropWhile (· ≠ '=') with
    | [] => none
    | _ :: value => some (String.ofList value))

/-- The form of the argument `s`. -/
def Argument.ofString (s : String) : Argument :=
  match s.toList with
  | ['-', '-'] => .terminator
  | '-' :: '-' :: cs => .long (splitAttached cs).1 (splitAttached cs).2
  | '-' :: c :: _ => .short c
  | _ => .plain s

/-- What has been read of a command line. -/
structure Scan where
  /-- The options that are settled. -/
  given : Given := {}
  /-- An option that waits for its separate value, or has one and is not settled yet. -/
  pending : Option (Key × Option String) := none
  /-- Whether the options have ended. -/
  ended : Bool := false
deriving DecidableEq

namespace Scan

/-- Settles the pending option. -/
def settle (s : Scan) : Except Refusal Given :=
  match s.pending with
  | none => .ok s.given
  | some (_, none) => .error .missingValue
  | some (k, some v) => s.given.add k v

/-- Takes one argument. -/
def step (s : Scan) (arg : String) : Except Refusal Scan :=
  if s.ended then .error .unknownArgument
  else match Argument.ofString arg with
    | .terminator => .ok { s with ended := true }
    | .long name attached =>
      match Key.ofName? name, attached with
      | some k, some v => do
        let g ← s.settle
        return { given := ← g.add k v }
      | some k, none => return { given := ← s.settle, pending := some (k, none) }
      | none, none =>
        if name = ['h', 'e', 'l', 'p'] then do
          let _ ← s.settle
          throw .helpRequested
        else throw .unknownArgument
      | none, some _ =>
        if name = ['h', 'e', 'l', 'p'] then throw .superfluousValue else throw .unknownArgument
    | .short c =>
      if c = 'h' then do
        let _ ← s.settle
        throw .helpRequested
      else throw .unknownArgument
    | .plain v =>
      match s.pending with
      | some (k, none) => .ok { s with pending := some (k, some v) }
      | _ => .error .unknownArgument

end Scan

/-- The settings that the arguments of a command line give. -/
def ofArguments (args : List String) : Except Refusal Settings := do
  let s ← args.foldlM Scan.step {}
  (← s.settle).settings

end ShieldedWallet.Settings
