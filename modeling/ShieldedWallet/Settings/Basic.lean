import ShieldedWallet.Account.Version
import ShieldedWallet.Json.Record

/-!
# Settings

What a wallet has to be told before it can be opened: the chain, and optionally the contract
version, the key its state is stored under, and where to find a relayer.
-/

namespace ShieldedWallet

/-- The settings of a wallet. -/
structure Settings where
  /-- The identifier of the chain. -/
  chainId : UInt64
  /-- The contract version calldata is built for. -/
  version : ContractVersion
  /-- The key the account is stored under. -/
  storageKey : String
  /-- The address of a relayer on the network. -/
  relayerUrl : Option String
deriving DecidableEq

namespace Settings

/-- The key an account is stored under by default. -/
def defaultStorageKey : String := "accountState"

/-- The default settings for a chain. -/
def forChain (chainId : UInt64) : Settings where
  chainId := chainId
  version := .supported
  storageKey := defaultStorageKey
  relayerUrl := none

/-- Settings in JSON. All but the chain have defaults. -/
def format : RecordFormat Settings where
  fields :=
    [{ Value := UInt64, name := "chainId", codec := .word64 },
     { Value := ContractVersion, name := "contractVersion", codec := ContractVersion.codec,
       ifMissing := some .supported, ifCut := some .supported },
     { Value := String, name := "storageKey", codec := .text,
       ifMissing := some defaultStorageKey, ifCut := some defaultStorageKey },
     { Value := Option String, name := "relayerUrl", codec := .optional .text,
       ifMissing := some none, ifCut := some none }]
  closed := true
  toValues s := (s.chainId, s.version, s.storageKey, s.relayerUrl, ())
  ofValues := fun (chainId, version, storageKey, relayerUrl, ()) =>
    { chainId, version, storageKey, relayerUrl }

end Settings

end ShieldedWallet
