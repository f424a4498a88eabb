import ShieldedWallet.Account.Register
import ShieldedWallet.Proofs.Json.Records

/-!
# Reading the stored account back

A register reads the account it has stored. The document carries all of an account but its
identifier, which the register knows.
-/

namespace ShieldedWallet

/-! ## Notations -/

theorem Numeral.splitRadix_toDigits (n : Nat) :
    splitRadix (Nat.toDigits 10 n) = (10, Nat.toDigits 10 n) := by
  have hd : ∀ c ∈ Nat.toDigits 10 n, c.isDigit = true := fun c hc =>
    Nat.isDigit_of_mem_toDigits (by decide) (by decide) hc
  generalize Nat.toDigits 10 n = cs at hd
  unfold splitRadix
  split
  all_goals first
    | rfl
    | exact absurd (hd _ (List.mem_cons_of_mem _ List.mem_cons_self)) (by decide)

theorem Numeral.amount?_toDigits (n : Nat) : amount? (Nat.toDigits 10 n) = some n := by
  have hu : (Nat.toDigits 10 n).filter (· ≠ '_') = Nat.toDigits 10 n := by
    refine List.filter_eq_self.2 fun c hc => ?_
    have hd := Nat.isDigit_of_mem_toDigits (by decide) (by decide) hc
    simp only [ne_eq, decide_eq_true_eq]
    rintro rfl
    cases hd
  rw [amount?, splitRadix_toDigits, hu]
  exact digits?_toDigits (r := 10) n (by decide) (by decide)

theorem Numeral.dropPlus_toDigits (n : Nat) :
    dropPlus (Nat.toDigits 10 n) = Nat.toDigits 10 n := by
  have hd : ∀ c ∈ Nat.toDigits 10 n, c.isDigit = true := fun c hc =>
    Nat.isDigit_of_mem_toDigits (by decide) (by decide) hc
  generalize Nat.toDigits 10 n = cs at hd
  unfold dropPlus
  split
  · exact absurd (hd _ List.mem_cons_self) (by decide)
  · rfl

theorem Numeral.word?_toDigits (n : Nat) : word? (Nat.toDigits 10 n) = some n := by
  rw [word?, dropPlus_toDigits, if_neg Nat.toDigits_ne_nil]
  exact digits?_toDigits n (by decide) (by decide)

theorem UInt256.ofText?_text (a : UInt256) : ofText? a.text = some a := by
  simp [ofText?, text, Numeral.decimal, Numeral.amount?_toDigits]

theorem Scalar.ofText_text (x : Scalar) : ofText x.text = .ok x := by
  have ht : UInt256.ofText? x.text = some x.toUInt256 := UInt256.ofText?_text x.toUInt256
  have hc : ofCanonical? x.toUInt256 = some x := ofCanonical?_eq_some_iff.2 rfl
  simp [ofText, ht, hc]

theorem Numeral.word64?_decimal (n : UInt64) : word64? (decimal n.toNat) = some n := by
  have hn : n.toNat < UInt64.size := n.toNat_lt
  simp [word64?, decimal, word?_toDigits, hn]

namespace Codec

theorem sound_decimalWord : decimalWord.Sound := sound_notated Numeral.word64?_decimal

theorem sound_decimalAmount : decimalAmount.Sound := sound_notated UInt256.ofText?_text

theorem sound_decimalScalar : decimalScalar.Sound := by
  refine sound_notated fun x => ?_
  rw [Scalar.ofText_text]
  rfl

end Codec

namespace AccountRecord

open Codec

theorem sound_format : format.Sound where
  fields := by
    have hindex : (optional decimalWord).Sound := sound_decimalWord.optional fun _ => by
      simp [decimalWord, notated, Json.text]
    intro f hf
    simp only [format, List.mem_cons, List.not_mem_nil, or_false] at hf
    rcases hf with rfl | rfl | rfl | rfl | rfl | rfl
    · exact .of_codec sound_decimalWord fun _ => rfl
    · exact .of_codec sound_decimalAmount fun _ => rfl
    · exact .of_codec sound_decimalScalar fun _ => rfl
    · exact .of_codec sound_decimalScalar fun _ => rfl
    · exact ⟨hindex, by simp⟩
    · exact .of_codec sound_word32 fun _ => rfl
  nodup := by decide
  ofValues_toValues _ := rfl

theorem ofBytes?_toBytes {r : AccountRecord} (hr : r.layout = currentLayout) :
    ofBytes? r.toBytes = some r := by
  have hs := sound_format.codec
  have hu : String.fromUTF8? ⟨r.toBytes.toArray⟩ = some (format.codec.print r) := by
    have hb : (⟨r.toBytes.toArray⟩ : ByteArray) = (format.codec.print r).toByteArray := by
      simp [toBytes]
    rw [hb, String.fromUTF8?, dif_pos (String.isValidUTF8 _)]
    rfl
  simp [ofBytes?, hu, hs.faithful.parse?_print hs.legible r, hr]

end AccountRecord

namespace Register

variable {r : Register}

/-- What the register stores for an account. -/
def item (r : Register) (a : Account) : Bytes := (AccountRecord.ofAccount r.idHash a).toBytes

/-- The account that a register holds for another account, whose identifier is its own: an account
without a nonce counts as unopened. -/
theorem read_item {a : Account} (ha : a.id = r.id) (hn : a.isUnopened ∨ a.nonce ≠ 0) :
    r.read (some (r.item a)) = .ok a := by
  have hrecord := AccountRecord.ofBytes?_toBytes (r := .ofAccount r.idHash a) rfl
  simp only [read, item, Option.bind_some, hrecord]
  cases a with
  | unopened id =>
    obtain rfl : id = r.id := ha
    simp [AccountRecord.ofAccount, AccountRecord.toAccount, Account.nonce]
  | opened h =>
    obtain ⟨id, nonce, balance, note, noteIndex⟩ := h
    obtain rfl : id = r.id := ha
    have h0 : nonce ≠ 0 := by simpa [Account.isUnopened, Account.nonce] using hn
    simp [AccountRecord.ofAccount, AccountRecord.toAccount, Account.nonce, Account.balance,
      Account.note?, Account.noteIndex?, h0]

/-- Nothing stored stands for an account without a note. -/
theorem read_none : r.read none = .ok (.unopened r.id) := rfl

/-- Whatever is stored, the account read has the identifier of the register. -/
theorem id_of_read {item : Option Bytes} {a : Account} (h : r.read item = .ok a) : a.id = r.id := by
  unfold read at h
  split at h
  case h_1 => cases h; rfl
  case h_2 record _ =>
    split at h
    case isTrue =>
      cases h
      unfold AccountRecord.toAccount
      split <;> rfl
    case isFalse => cases h

/-- Whatever is stored, an open account that is read has created a note. -/
theorem nonce_of_read {item : Option Bytes} {a : Account} (h : r.read item = .ok a) :
    a.isUnopened ∨ a.nonce ≠ 0 := by
  unfold read at h
  split at h
  case h_1 => cases h; exact .inl rfl
  case h_2 record _ =>
    split at h
    case isTrue =>
      cases h
      unfold AccountRecord.toAccount
      split
      case isTrue => exact .inl rfl
      case isFalse hn => exact .inr hn
    case isFalse => cases h

end Register

end ShieldedWallet
