import ShieldedWallet.Json.Codec

/-!
# Contract versions

A deployed contract carries a tag of three bytes. Calldata is built for one version and refused by
contracts and relayers running another. The top byte is the version of the notes.
-/

namespace ShieldedWallet

/-- The tag of a deployed contract version. -/
structure ContractVersion where
  /-- The tag, most significant byte first. -/
  bytes : FixedBytes 3
deriving DecidableEq

namespace ContractVersion

/-- The version this wallet builds calldata for by default. -/
def supported : ContractVersion := ⟨#v[0x00, 0x00, 0x01]⟩

/-- The tag as a number. -/
def toNat (v : ContractVersion) : Nat := v.bytes.toNatBE

/-- The version of the notes, which is the top byte of the tag. -/
def noteVersion (v : ContractVersion) : Scalar := Scalar.ofNat v.bytes[0].toNat

/-- The tag in hexadecimal. -/
def text (v : ContractVersion) : String := Hex.prefixed v.bytes.toList

/-- The version a text denotes. -/
def ofText? (s : String) : Option ContractVersion :=
  match s.toList with
  | '0' :: 'x' :: cs => (Hex.readFixed? 3 cs).map ContractVersion.mk
  | _ => none

/-- What is said about the text `s`, which is not a version. -/
def malformedMessage (s : String) : String :=
  "invalid contract version `" ++ s ++ "`: expected `0x` followed by six hex digits"

/-- A version in JSON. -/
def codec : Codec ContractVersion := .notated text ofText?

end ContractVersion

end ShieldedWallet
