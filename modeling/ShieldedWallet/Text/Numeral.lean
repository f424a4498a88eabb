/-!
# Numerals

Two grammars of unsigned integers. An amount may be written in radix 16, 8 or 2 behind a prefix and
in radix 10 without one; underscores may stand anywhere after the prefix and count for nothing, and
no digits at all mean zero. A machine word is written in radix 10 with an optional plus sign and at
least one digit. Neither grammar limits leading zeros. Numbers are printed without any.
-/

namespace ShieldedWallet.Numeral

/-- The value of `c` as a digit: letters of either case stand for ten and upwards. -/
def digitValue? (c : Char) : Option Nat :=
  if '0' ≤ c ∧ c ≤ '9' then some (c.toNat - '0'.toNat)
  else if 'a' ≤ c ∧ c ≤ 'z' then some (c.toNat - 'a'.toNat + 10)
  else if 'A' ≤ c ∧ c ≤ 'Z' then some (c.toNat - 'A'.toNat + 10)
  else none

/-- The value of `c` as a digit of the radix `r`. -/
def digit? (r : Nat) (c : Char) : Option Nat := (digitValue? c).filter (· < r)

/-- The number with the digits `ds`, most significant first. -/
def ofDigits (r : Nat) (ds : List Nat) : Nat := ds.foldl (fun n d => n * r + d) 0

/-- The number written by the characters `cs`, all of which have to be digits. -/
def digits? (r : Nat) (cs : List Char) : Option Nat := (cs.mapM (digit? r)).map (ofDigits r)

/-- The radix announced by the first two characters, and what follows the announcement. -/
def splitRadix : List Char → Nat × List Char
  | '0' :: 'x' :: cs | '0' :: 'X' :: cs => (16, cs)
  | '0' :: 'o' :: cs | '0' :: 'O' :: cs => (8, cs)
  | '0' :: 'b' :: cs | '0' :: 'B' :: cs => (2, cs)
  | cs => (10, cs)

/-- The number an amount's numeral denotes. -/
def amount? (cs : List Char) : Option Nat :=
  digits? (splitRadix cs).1 ((splitRadix cs).2.filter (· ≠ '_'))

/-- The characters after an optional plus sign. -/
def dropPlus : List Char → List Char
  | '+' :: cs => cs
  | cs => cs

/-- The number a machine word's numeral denotes. -/
def word? (cs : List Char) : Option Nat :=
  if dropPlus cs = [] then none else digits? 10 (dropPlus cs)

/-- The machine word a text denotes, if it is a numeral of a number that fits. -/
def word64? (s : String) : Option UInt64 :=
  (word? s.toList).bind fun n => if n < UInt64.size then some (UInt64.ofNat n) else none

/-- The decimal numeral of `n`. -/
def decimal (n : Nat) : String := String.ofList (Nat.toDigits 10 n)

/-- The hexadecimal numeral of `n` with its prefix. -/
def hexadecimal (n : Nat) : String := String.ofList ('0' :: 'x' :: Nat.toDigits 16 n)

/-! ## Reading what was printed -/

/-- A printed digit reads as its value. -/
theorem digit?_digitChar {r d : Nat} (hd : d < r) (hr : r ≤ 16) :
    digit? r d.digitChar = some d := by
  have hv : ∀ e, e < 16 → digitValue? e.digitChar = some e := by decide
  simp [digit?, hv d (by omega), hd]

theorem ofDigits_append_singleton (r : Nat) (ds : List Nat) (d : Nat) :
    ofDigits r (ds ++ [d]) = ofDigits r ds * r + d := by
  simp [ofDigits]

theorem digits?_append_digit {r n d : Nat} {cs : List Char} {c : Char}
    (hn : digits? r cs = some n) (hd : digit? r c = some d) :
    digits? r (cs ++ [c]) = some (n * r + d) := by
  unfold digits? at hn ⊢
  obtain ⟨ds, hds, rfl⟩ := Option.map_eq_some_iff.1 hn
  simp [List.mapM_append, hds, hd, ofDigits]

/-- The digits of a number read as that number. -/
theorem digits?_toDigits {r : Nat} (n : Nat) (h1 : 1 < r) (hr : r ≤ 16) :
    digits? r (Nat.toDigits r n) = some n := by
  induction n using Nat.strongRecOn with
  | ind n ih =>
    rw [Nat.toDigits_eq_if h1]
    split
    case isTrue hn => simp [digits?, digit?_digitChar hn hr, ofDigits]
    case isFalse hn =>
      have hlt : n / r < n := Nat.div_lt_self (by omega) h1
      have hm : n % r < r := Nat.mod_lt _ (by omega)
      rw [digits?_append_digit (ih _ hlt) (digit?_digitChar hm hr), Nat.div_add_mod']

/-- Every character of a printed number is a digit. -/
theorem digit?_isSome_of_mem_toDigits {r n : Nat} {c : Char} (h1 : 1 < r) (hr : r ≤ 16)
    (hc : c ∈ Nat.toDigits r n) : (digit? r c).isSome := by
  induction n using Nat.strongRecOn with
  | ind n ih =>
    rw [Nat.toDigits_eq_if h1] at hc
    split at hc
    case isTrue hn =>
      rw [List.mem_singleton.1 hc, digit?_digitChar hn hr]
      rfl
    case isFalse hn =>
      have hlt : n / r < n := Nat.div_lt_self (by omega) h1
      have hm : n % r < r := Nat.mod_lt _ (by omega)
      rcases List.mem_append.1 hc with hc | hc
      · exact ih _ hlt hc
      · rw [List.mem_singleton.1 hc, digit?_digitChar hm hr]
        rfl

end ShieldedWallet.Numeral
