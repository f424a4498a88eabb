import Mathlib.Tactic.ByContra
import ShieldedWallet.Bytes.Hex

/-!
# Digits

What a digit of a radix is can be said by the character that is printed for its value, in either case.
That is what the reader of digits takes for one, and nothing else. So a byte string is read from two
hexadecimal digits for each byte, which are the printed ones but for their case.
-/

namespace ShieldedWallet

namespace Numeral

variable {r d : Nat} {c : Char}

/-- `c` is the digit of the radix `r` with the value `d`. Letters may be of either case. -/
def IsDigit (r : Nat) (c : Char) (d : Nat) : Prop :=
  d < r ∧ (c = d.digitChar ∨ c = d.digitChar.toUpper)

theorem digitValue?_eq_some_iff (hd : d < 16) :
    digitValue? c = some d ↔ c = d.digitChar ∨ c = d.digitChar.toUpper := by
  constructor
  · intro h
    have hc : c.toNat < 128 := by
      by_contra hc
      have hle : ∀ e : Char, e.toNat < 128 → ¬ c ≤ e := fun e he hce =>
        absurd (show c.toNat ≤ e.toNat from hce) (by omega)
      simp [digitValue?, hle '9' (by decide), hle 'z' (by decide), hle 'Z' (by decide)] at h
    have hascii : ∀ m < 128, ∀ e < 16, digitValue? (Char.ofNat m) = some e →
        Char.ofNat m = e.digitChar ∨ Char.ofNat m = e.digitChar.toUpper := by
      decide +kernel
    have h' := hascii c.toNat hc d hd
    rw [Char.ofNat_toNat] at h'
    exact h' h
  · have hread : ∀ e < 16, digitValue? e.digitChar = some e ∧
        digitValue? e.digitChar.toUpper = some e := by decide
    rintro (rfl | rfl)
    · exact (hread d hd).1
    · exact (hread d hd).2

theorem digit?_eq_some_iff (hr : r ≤ 16) : digit? r c = some d ↔ IsDigit r c d := by
  rw [digit?, Option.filter_eq_some_iff, IsDigit, decide_eq_true_eq, and_comm]
  refine and_congr_right fun hd => ?_
  exact digitValue?_eq_some_iff (Nat.lt_of_lt_of_le hd hr)

theorem IsDigit.ne (hr : r ≤ 16) (h : IsDigit r c d) : c ≠ '_' := by
  have hne : ∀ e < 16, e.digitChar ≠ '_' ∧ e.digitChar.toUpper ≠ '_' := by decide
  obtain ⟨hd, rfl | rfl⟩ := h
  · exact (hne d (Nat.lt_of_lt_of_le hd hr)).1
  · exact (hne d (Nat.lt_of_lt_of_le hd hr)).2

/-- In lower case a digit is the one that is printed. -/
theorem IsDigit.toLower (hr : r ≤ 16) (h : IsDigit r c d) : c.toLower = d.digitChar := by
  have hlower : ∀ e < 16, e.digitChar.toLower = e.digitChar ∧
      e.digitChar.toUpper.toLower = e.digitChar := by decide
  obtain ⟨hd, rfl | rfl⟩ := h
  · exact (hlower d (Nat.lt_of_lt_of_le hd hr)).1
  · exact (hlower d (Nat.lt_of_lt_of_le hd hr)).2

end Numeral

namespace Hex

variable {c : Char} {cs ds : List Char} {bs bs' : Bytes}

/-- `c` is a hexadecimal digit. -/
def IsDigit (c : Char) : Prop := ∃ d, Numeral.IsDigit 16 c d

/-- What may stand in front of the digits of a byte string of known length. -/
def marks : List (List Char) := [[], ['0', 'x'], ['0', 'X']]

theorem digit?_eq_some_iff {d : Nat} : Numeral.digit? 16 c = some d ↔ Numeral.IsDigit 16 c d :=
  Numeral.digit?_eq_some_iff (Nat.le_refl 16)

theorem not_isDigit_of_digit? (h : Numeral.digit? 16 c = none) : ¬ IsDigit c := by
  rintro ⟨d, hd⟩
  rw [digit?_eq_some_iff.2 hd] at h
  cases h

/-- The two digits of a byte are read one by one. -/
theorem read?_pair_eq_some_iff {h l : Char} :
    read? (h :: l :: cs) = some bs ↔ ∃ high low bs', Numeral.IsDigit 16 h high ∧
      Numeral.IsDigit 16 l low ∧ read? cs = some bs' ∧ bs = UInt8.ofNat (high * 16 + low) :: bs' := by
  rw [read?]
  simp only [Option.bind_eq_bind, Option.bind_eq_some_iff, digit?_eq_some_iff, Option.pure_def,
    Option.some.injEq, exists_and_left, eq_comm (b := bs)]

/-- What is read are digits, and they are those that are printed for the bytes, but for their case. -/
theorem digits_of_read? (h : read? cs = some bs) :
    (∀ c ∈ cs, IsDigit c) ∧ cs.map Char.toLower = digits bs := by
  fun_induction read? cs generalizing bs with
  | case1 =>
    obtain rfl : [] = bs := Option.some.inj h
    exact ⟨by simp, rfl⟩
  | case2 => cases h
  | case3 c c' cs ih =>
    obtain ⟨high, low, bs', hhigh, hlow, hbs', rfl⟩ := read?_pair_eq_some_iff.1 h
    obtain ⟨hdigits, hlower⟩ := ih hbs'
    have hlt := hlow.1
    have hbyte : (UInt8.ofNat (high * 16 + low)).toNat = high * 16 + low := by
      have hlt' := hhigh.1
      rw [UInt8.toNat_ofNat']
      omega
    have hquotient : (high * 16 + low) / 16 = high := by omega
    have hremainder : (high * 16 + low) % 16 = low := by omega
    constructor
    · simp only [List.forall_mem_cons]
      exact ⟨⟨high, hhigh⟩, ⟨low, hlow⟩, hdigits⟩
    · rw [digits_cons, hbyte, hquotient, hremainder, List.map_cons, List.map_cons, hlower,
        hhigh.toLower (Nat.le_refl 16), hlow.toLower (Nat.le_refl 16)]

/-- Digits in pairs are read. -/
theorem exists_read? (hdigits : ∀ c ∈ cs, IsDigit c) (hlen : cs.length % 2 = 0) :
    ∃ bs, read? cs = some bs := by
  fun_induction read? cs with
  | case1 => exact ⟨[], rfl⟩
  | case2 => simp at hlen
  | case3 c c' cs ih =>
    simp only [List.forall_mem_cons] at hdigits
    obtain ⟨⟨high, hhigh⟩, ⟨low, hlow⟩, hdigits⟩ := hdigits
    rw [List.length_cons, List.length_cons] at hlen
    obtain ⟨bs, hbs⟩ := ih hdigits (by omega)
    exact ⟨_, read?_pair_eq_some_iff.2 ⟨high, low, bs, hhigh, hlow, hbs, rfl⟩⟩

theorem digits_injective (h : digits bs = digits bs') : bs = bs' := by
  have hread := read?_digits bs
  rw [h, read?_digits] at hread
  exact (Option.some.inj hread).symm

/-- Digits are read as bytes exactly if they are printed for these, but for their case. -/
theorem read?_eq_some_iff :
    read? cs = some bs ↔ (∀ c ∈ cs, IsDigit c) ∧ cs.map Char.toLower = digits bs := by
  refine ⟨digits_of_read?, ?_⟩
  rintro ⟨hdigits, hlower⟩
  have hlen := congrArg List.length hlower
  rw [List.length_map, length_digits] at hlen
  obtain ⟨bs', hread⟩ := exists_read? hdigits (by omega)
  obtain rfl : bs' = bs := digits_injective ((digits_of_read? hread).2.symm.trans hlower)
  exact hread

/-! ## Byte strings of known length -/

theorem exists_mark_dropPrefix (cs : List Char) : ∃ mark ∈ marks, cs = mark ++ dropPrefix cs := by
  unfold dropPrefix
  split
  · exact ⟨['0', 'x'], by simp [marks], rfl⟩
  · exact ⟨['0', 'X'], by simp [marks], rfl⟩
  · exact ⟨[], by simp [marks], rfl⟩

/-- Digits are not taken for a mark, whose letter would be no digit. -/
theorem dropPrefix_of_isDigit (h : ∀ c ∈ ds, IsDigit c) : dropPrefix ds = ds := by
  unfold dropPrefix
  split
  · exact absurd (h 'x' (by simp)) (not_isDigit_of_digit? rfl)
  · exact absurd (h 'X' (by simp)) (not_isDigit_of_digit? rfl)
  · rfl

theorem dropPrefix_append {mark : List Char} (hmark : mark ∈ marks) (h : ∀ c ∈ ds, IsDigit c) :
    dropPrefix (mark ++ ds) = ds := by
  simp only [marks, List.mem_cons, List.not_mem_nil, or_false] at hmark
  rcases hmark with rfl | rfl | rfl
  · exact dropPrefix_of_isDigit h
  · rfl
  · rfl

/-- Digits are those of a byte string, but for their case. -/
theorem exists_digits_eq {k : Nat} (hdigits : ∀ c ∈ ds, IsDigit c) (hlen : ds.length = 2 * k) :
    ∃ v : FixedBytes k, ds.map Char.toLower = digits v.toList := by
  obtain ⟨bs, hbs⟩ := exists_read? hdigits (by omega)
  have hlower := (digits_of_read? hbs).2
  have hsize := congrArg List.length hlower
  rw [List.length_map, length_digits] at hsize
  refine ⟨⟨bs.toArray, by simp; omega⟩, ?_⟩
  simpa [Vector.toList] using hlower

/-- A byte string of known length is read from its digits in any case, with or without a mark. -/
theorem readFixed?_eq_some_iff {k : Nat} {v : FixedBytes k} :
    readFixed? k cs = some v ↔ ∃ mark ds, mark ∈ marks ∧ cs = mark ++ ds ∧ ds.length = 2 * k ∧
      (∀ c ∈ ds, IsDigit c) ∧ ds.map Char.toLower = digits v.toList := by
  rw [readFixed?, Option.bind_eq_some_iff]
  simp only [Bytes.toFixed?_eq_some_iff]
  constructor
  · rintro ⟨bs, hread, rfl⟩
    obtain ⟨mark, hmark, hcs⟩ := exists_mark_dropPrefix cs
    obtain ⟨hdigits, hlower⟩ := digits_of_read? hread
    have hlen := congrArg List.length hlower
    rw [List.length_map, length_digits, Vector.length_toList] at hlen
    exact ⟨mark, dropPrefix cs, hmark, hcs, hlen, hdigits, hlower⟩
  · rintro ⟨mark, ds, hmark, rfl, -, hdigits, hlower⟩
    rw [dropPrefix_append hmark hdigits]
    exact ⟨v.toList, read?_eq_some_iff.2 ⟨hdigits, hlower⟩, rfl⟩

end Hex

end ShieldedWallet
