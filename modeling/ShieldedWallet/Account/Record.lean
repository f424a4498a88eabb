import ShieldedWallet.Account.State
import ShieldedWallet.Json.Document

/-!
# The stored account

An account is kept between runs as a JSON document. The document names the account by the hash of
its identifier only. Anything that is not such a document of the present layout counts as nothing
stored.
-/

namespace ShieldedWallet

/-- The stored form of an account. An account without a note is stored with nonce zero. -/
structure AccountRecord where
  /-- The number of notes created so far. -/
  nonce : UInt64
  /-- The shielded balance. -/
  balance : UInt256
  /-- The hash of the identifier. -/
  idHash : Scalar
  /-- The current note, or zero. -/
  note : Scalar
  /-- The position of the current note. -/
  noteIndex : Option UInt64
  /-- The version of the layout. -/
  layout : UInt32
deriving DecidableEq

namespace AccountRecord

/-- The present layout. -/
def currentLayout : UInt32 := 1

/-- A stored account in JSON. -/
def format : RecordFormat AccountRecord where
  fields :=
    [{ Value := UInt64, name := "nonce", codec := .decimalWord },
     { Value := UInt256, name := "balance", codec := .decimalAmount },
     { Value := Scalar, name := "idHash", codec := .decimalScalar },
     { Value := Scalar, name := "currentNote", codec := .decimalScalar },
     { Value := Option UInt64, name := "currentNoteIndex", codec := .optional .decimalWord,
       ifMissing := some none, ifCut := some none, isHidden := Option.isNone },
     { Value := UInt32, name := "storageSchemaVersion", codec := .word32 }]
  closed := true
  toValues r := (r.nonce, r.balance, r.idHash, r.note, r.noteIndex, r.layout, ())
  ofValues := fun (nonce, balance, idHash, note, noteIndex, layout, ()) =>
    { nonce, balance, idHash, note, noteIndex, layout }

/-- The stored form of `account`, named by `idHash`. -/
def ofAccount (idHash : Scalar) (account : Account) : AccountRecord where
  nonce := account.nonce
  balance := account.balance
  idHash := idHash
  note := account.note?.getD 0
  noteIndex := account.noteIndex?
  layout := currentLayout

/-- The account with the identifier `id` whose stored form is `r`. -/
def toAccount (id : Scalar) (r : AccountRecord) : Account :=
  if r.nonce = 0 then .unopened id
  else .opened ⟨id, r.nonce, r.balance, r.note, r.noteIndex⟩

/-- The bytes of the document. -/
def toBytes (r : AccountRecord) : Bytes := (format.codec.print r).toUTF8.data.toList

/-- The record whose document the bytes are, if the layout is the present one. -/
def ofBytes? (bs : Bytes) : Option AccountRecord := do
  let s ← String.fromUTF8? ⟨bs.toArray⟩
  let r ← format.codec.parse? s
  if r.layout = currentLayout then some r else none

end AccountRecord

end ShieldedWallet
