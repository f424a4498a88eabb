import ShieldedWallet.Chain.Event
import ShieldedWallet.Chain.Relay
import ShieldedWallet.Proofs.Account.Stored
import ShieldedWallet.Proofs.Text.Digits
import ShieldedWallet.Settings.Basic

/-!
# Documents are read back

Everything that is exchanged with others or kept between runs is a document of one of nine types. Each
type has its own codec, put together from the codecs of its parts; if those are sound, so is it. What is
written as a document is then read back from it as it was, and a document of anyone else's making
settles into the written form after one reading.
-/

namespace ShieldedWallet

/-! ## Notations -/

theorem Numeral.amount?_hexadecimal (n : Nat) : amount? (hexadecimal n).toList = some n := by
  have hd : ∀ c ∈ Nat.toDigits 16 n, c ≠ '_' := by
    rintro c hc rfl
    have hdigit := digit?_isSome_of_mem_toDigits (r := 16) (by decide) (by decide) hc
    cases hdigit
  have hu : (Nat.toDigits 16 n).filter (· ≠ '_') = Nat.toDigits 16 n := by
    refine List.filter_eq_self.2 fun c hc => ?_
    simpa using hd c hc
  have hs : splitRadix (hexadecimal n).toList = (16, Nat.toDigits 16 n) := by
    simp [hexadecimal, splitRadix]
  rw [amount?, hs, hu]
  exact digits?_toDigits (r := 16) n (by decide) (by decide)

/-- The digits of a byte string carry no prefix: the second digit is no letter of a radix. -/
theorem Hex.dropPrefix_digits (bs : Bytes) : dropPrefix (digits bs) = digits bs :=
  dropPrefix_of_isDigit (digits_of_read? (read?_digits bs)).1

theorem ContractVersion.ofText?_text (v : ContractVersion) : ofText? v.text = some v := by
  have hr : Hex.readFixed? 3 (Hex.digits v.bytes.toList) = some v.bytes := by
    rw [Hex.readFixed?, Hex.dropPrefix_digits, Hex.read?_digits]
    exact Bytes.toFixed?_toList v.bytes
  simp [ofText?, text, Hex.prefixed, hr]

namespace Codec

variable {α : Type}

/-- An amount is written in hexadecimal and read in any radix. -/
theorem sound_amount : amount.Sound where
  faithful a := by
    have hr : UInt256.ofText? (Numeral.hexadecimal a.toNat) = some a := by
      rw [UInt256.ofText?, Numeral.amount?_hexadecimal]
      exact UInt256.ofNat?_toNat a
    simp [amount, hr]
  legible a := by simp [amount, Json.text, Json.Fits]

theorem sound_fixedBytes (k : Nat) : (fixedBytes k).Sound where
  faithful v := by simp [fixedBytes, Hex.readFixed?_prefixed]
  legible v := by simp [fixedBytes, Json.text, Json.Fits]

theorem mapM_read?_write {c : Codec α} (hc : c.Faithful) (as : List α) :
    (as.map c.write).mapM c.read? = some as := by
  induction as with
  | nil => rfl
  | cons a as ih => simp [List.mapM_cons, hc a, ih]

/-- No item of a list is expected to have a shape of its own. -/
theorem fitsItems_any {js : List Json} (h : ∀ j ∈ js, Json.Fits .any j) :
    Json.FitsItems .any js := by
  induction js with
  | nil => simp [Json.FitsItems]
  | cons j js ih =>
    have hj : Json.Fits .any j := h j (by simp)
    have hjs : Json.FitsItems .any js := ih fun i hi => h i (by simp [hi])
    simp only [Json.FitsItems]
    exact ⟨hj, fun _ => by simp [Json.Shape.rest], hjs⟩

theorem Sound.list {c : Codec α} (hc : c.Sound) (hs : c.shape = .any) : (Codec.list c).Sound where
  faithful as := mapM_read?_write hc.faithful as
  legible as := by
    show Json.Fits .any (.array (as.map c.write))
    rw [Json.Fits]
    refine fitsItems_any fun j hj => ?_
    obtain ⟨a, -, rfl⟩ := List.mem_map.1 hj
    have hl := hc.legible a
    rwa [hs] at hl

theorem sound_version : ContractVersion.codec.Sound := sound_notated ContractVersion.ofText?_text

theorem sound_movement : Movement.codec.Sound where
  faithful m := by cases m <;> decide
  legible m := by simp [Movement.codec, Json.text, Json.Fits]

end Codec

/-! ## Records -/

section Records

open Codec

theorem sound_destination : (optional (fixedBytes 20)).Sound :=
  (sound_fixedBytes 20).optional fun _ => by simp [fixedBytes, Json.text]

theorem sound_relayerFee : (optional amount).Sound :=
  sound_amount.optional fun _ => by simp [amount, Json.text]

theorem NoteEvent.sound_format : NoteEvent.format.Sound where
  fields := by
    intro f hf
    simp only [format, List.mem_cons, List.not_mem_nil, or_false] at hf
    rcases hf with rfl | rfl | rfl | rfl | rfl | rfl | rfl | rfl | rfl
    · exact .of_codec sound_movement fun _ => rfl
    · exact .of_codec sound_version fun _ => rfl
    · exact .of_codec sound_amount fun _ => rfl
    · exact .of_codec sound_decimalScalar fun _ => rfl
    · exact .of_codec sound_word64 fun _ => rfl
    · exact .of_codec sound_destination fun _ => rfl
    · exact .of_codec sound_relayerFee fun _ => rfl
    · exact .of_codec (sound_fixedBytes 32) fun _ => rfl
    · exact .of_codec sound_word64 fun _ => rfl
  nodup := by decide
  ofValues_toValues _ := rfl

theorem Transaction.sound_format : Transaction.format.Sound where
  fields := by
    intro f hf
    simp only [format, List.mem_cons, List.not_mem_nil, or_false] at hf
    rcases hf with rfl | rfl | rfl | rfl | rfl | rfl | rfl
    · exact .of_codec sound_movement fun _ => rfl
    · exact .of_codec sound_amount fun _ => rfl
    · exact .of_codec sound_destination fun _ => rfl
    · exact .of_codec sound_relayerFee fun _ => rfl
    · exact .of_codec sound_decimalScalar fun _ => rfl
    · exact .of_codec (sound_fixedBytes 32) fun _ => rfl
    · exact .of_codec sound_word64 fun _ => rfl
  nodup := by decide
  ofValues_toValues _ := rfl

theorem Settings.sound_format : Settings.format.Sound where
  fields := by
    have hurl : (optional text).Sound := sound_text.optional fun _ => by simp [text, Json.text]
    intro f hf
    simp only [format, List.mem_cons, List.not_mem_nil, or_false] at hf
    rcases hf with rfl | rfl | rfl | rfl
    · exact .of_codec sound_word64 fun _ => rfl
    · exact .of_codec sound_version fun _ => rfl
    · exact .of_codec sound_text fun _ => rfl
    · exact .of_codec hurl fun _ => rfl
  nodup := by decide
  ofValues_toValues _ := rfl

theorem RelayRequest.sound_format : RelayRequest.format.Sound where
  fields := by
    intro f hf
    simp only [format, List.mem_cons, List.not_mem_nil, or_false] at hf
    rcases hf with rfl | rfl | rfl | rfl | rfl | rfl | rfl | rfl
    · exact .of_codec sound_version fun _ => rfl
    · exact .of_codec sound_decimalAmount fun _ => rfl
    · exact .of_codec (sound_fixedBytes 20) fun _ => rfl
    · exact .of_codec sound_decimalScalar fun _ => rfl
    · exact .of_codec sound_decimalScalar fun _ => rfl
    · exact .of_codec sound_decimalScalar fun _ => rfl
    · exact .of_codec sound_decimalAmount fun _ => rfl
    · exact .of_codec (sound_byte.list rfl) fun _ => rfl
  nodup := by decide
  ofValues_toValues _ := rfl

theorem RelayReceipt.sound_format : RelayReceipt.format.Sound where
  fields := by
    intro f hf
    simp only [format, List.mem_singleton] at hf
    subst hf
    exact .of_codec (sound_fixedBytes 32) fun _ => rfl
  nodup := by decide
  ofValues_toValues _ := rfl

theorem RelayQuote.sound_format : RelayQuote.format.Sound where
  fields := by
    intro f hf
    simp only [format, List.mem_cons, List.not_mem_nil, or_false] at hf
    rcases hf with rfl | rfl | rfl <;> exact .of_codec sound_decimalAmount fun _ => rfl
  nodup := by decide
  ofValues_toValues _ := rfl

end Records

/-! ## The types of documents -/

/-- What a document may be about. -/
inductive DocumentType where
  | event
  | transaction
  | settings
  | record
  | relayRequest
  | relayReceipt
  | relayQuote
  | version
  | movement

namespace DocumentType

/-- What a document of the type says. -/
@[reducible]
def Value : DocumentType → Type
  | .event => NoteEvent
  | .transaction => Transaction
  | .settings => Settings
  | .record => AccountRecord
  | .relayRequest => RelayRequest
  | .relayReceipt => RelayReceipt
  | .relayQuote => RelayQuote
  | .version => ContractVersion
  | .movement => Movement

def codec : (d : DocumentType) → Codec d.Value
  | .event => NoteEvent.format.codec
  | .transaction => Transaction.format.codec
  | .settings => Settings.format.codec
  | .record => AccountRecord.format.codec
  | .relayRequest => RelayRequest.format.codec
  | .relayReceipt => RelayReceipt.format.codec
  | .relayQuote => RelayQuote.format.codec
  | .version => ContractVersion.codec
  | .movement => Movement.codec

theorem sound_codec (d : DocumentType) : d.codec.Sound := by
  cases d with
  | event => exact NoteEvent.sound_format.codec
  | transaction => exact Transaction.sound_format.codec
  | settings => exact Settings.sound_format.codec
  | record => exact AccountRecord.sound_format.codec
  | relayRequest => exact RelayRequest.sound_format.codec
  | relayReceipt => exact RelayReceipt.sound_format.codec
  | relayQuote => exact RelayQuote.sound_format.codec
  | version => exact Codec.sound_version
  | movement => exact Codec.sound_movement

theorem parse?_print (d : DocumentType) (a : d.Value) : d.codec.parse? (d.codec.print a) = some a :=
  d.sound_codec.faithful.parse?_print d.sound_codec.legible a

/-- The document that stands in the place of a text once its value has been read and written again. -/
def reprint? (d : DocumentType) (s : String) : Option String := (d.codec.parse? s).map d.codec.print

/-- Every value of every type is read back from its document. So whatever a text is accepted as, the
document of that value is accepted as the same value, and writing it again gives the same document. -/
theorem documents_read_back (d : DocumentType) :
    (∀ a, d.codec.parse? (d.codec.print a) = some a) ∧
      ∀ s, (d.reprint? s).bind d.codec.parse? = d.codec.parse? s ∧
        (d.reprint? s).bind d.reprint? = d.reprint? s := by
  refine ⟨d.parse?_print, fun s => ?_⟩
  cases hs : d.codec.parse? s with
  | none =>
    have hr : d.reprint? s = none := by simp [reprint?, hs]
    simp [hr]
  | some a =>
    have hback := d.parse?_print a
    have hr : d.reprint? s = some (d.codec.print a) := by simp [reprint?, hs]
    have hr' : d.reprint? (d.codec.print a) = some (d.codec.print a) := by simp [reprint?, hback]
    rw [hr]
    exact ⟨hback, hr'⟩

/-- A version may be written with capitals and with two prefixes. -/
example : reprint? .version "\"0x0X0000aB\"" = some "\"0x0000ab\"" := by decide +kernel

end DocumentType

end ShieldedWallet
