import Mathlib.Data.List.Induction
import Mathlib.Data.Nat.Digits.Defs
import ShieldedWallet.Proofs.Account.Stored
import ShieldedWallet.Proofs.Text.Digits

/-!
# The grammar of numerals

What a numeral is can be said without reading it: a prefix announces the radix, and what follows is
made of digits of that radix and of underscores. Every text is a numeral of at most one number, and
reading finds it. So a text is a field element exactly if it is a numeral of a number below the
modulus, and the two ways in which it may not be one are told apart by the size of that number alone.
-/

namespace ShieldedWallet

namespace Numeral

/-! ## The grammar -/

/-- The characters are the digits `ds` of the radix `r`, with any underscores among them. -/
inductive Spells (r : Nat) : List Char → List Nat → Prop where
  | nil : Spells r [] []
  | underscore {cs : List Char} {ds : List Nat} (h : Spells r cs ds) : Spells r ('_' :: cs) ds
  | digit {c : Char} {d : Nat} {cs : List Char} {ds : List Nat} (hd : IsDigit r c d)
      (h : Spells r cs ds) : Spells r (c :: cs) (d :: ds)

/-- The prefixes with the radix that each of them announces. -/
def prefixes : List (List Char × Nat) :=
  [(['0', 'x'], 16), (['0', 'X'], 16), (['0', 'o'], 8), (['0', 'O'], 8), (['0', 'b'], 2),
    (['0', 'B'], 2), ([], 10)]

/-- The characters are a numeral of `n`: a prefix, and then the digits of `n`, most significant first.
No digits at all denote zero. -/
def Denotes (cs : List Char) (n : Nat) : Prop :=
  ∃ announcement r body ds, (announcement, r) ∈ prefixes ∧ cs = announcement ++ body ∧
    Spells r body ds ∧ n = Nat.ofDigits r ds.reverse

/-! ## Digits -/

variable {r n d : Nat} {c : Char} {cs : List Char} {ds : List Nat}

/-- The most significant digit comes first. -/
theorem ofDigits_eq (r : Nat) (ds : List Nat) : ofDigits r ds = Nat.ofDigits r ds.reverse := by
  induction ds using List.reverseRecOn with
  | nil => rfl
  | append_singleton ds d ih =>
    rw [ofDigits_append_singleton, List.reverse_append, ih]
    simp [Nat.ofDigits_cons, Nat.mul_comm, Nat.add_comm]

/-- Without its underscores, what has been spelled is read digit by digit. -/
theorem mapM_digit?_eq_some_iff (hr : r ≤ 16) :
    (cs.filter (· ≠ '_')).mapM (digit? r) = some ds ↔ Spells r cs ds := by
  constructor
  · intro h
    induction cs generalizing ds with
    | nil =>
      obtain rfl : ds = [] := by simpa using h.symm
      exact .nil
    | cons c cs ih =>
      by_cases hc : c = '_'
      · subst hc
        exact .underscore (ih (by simpa using h))
      · have hcons : (c :: cs).filter (· ≠ '_') = c :: cs.filter (· ≠ '_') := by simp [hc]
        rw [hcons, List.mapM_cons] at h
        obtain ⟨d, hd, h⟩ := Option.bind_eq_some_iff.1 h
        obtain ⟨ds', hds, h⟩ := Option.bind_eq_some_iff.1 h
        obtain rfl : d :: ds' = ds := by simpa using h
        exact .digit ((digit?_eq_some_iff hr).1 hd) (ih hds)
  · intro h
    induction h with
    | nil => rfl
    | underscore _ ih => simpa using ih
    | @digit c d cs ds hd _ ih =>
      have hcons : (c :: cs).filter (· ≠ '_') = c :: cs.filter (· ≠ '_') := by simp [hd.ne hr]
      rw [hcons, List.mapM_cons, (digit?_eq_some_iff hr).2 hd, ih]
      rfl

/-! ## Numerals -/

theorem le_of_mem_prefixes {a : List Char} (h : (a, r) ∈ prefixes) : r ≤ 16 := by
  have hall : ∀ p ∈ prefixes, p.2 ≤ 16 := by decide
  exact hall _ h

/-- What is read as the prefix is one. -/
theorem exists_prefix_splitRadix (cs : List Char) :
    ∃ a, (a, (splitRadix cs).1) ∈ prefixes ∧ cs = a ++ (splitRadix cs).2 := by
  unfold splitRadix
  split
  · exact ⟨['0', 'x'], by simp [prefixes], rfl⟩
  · exact ⟨['0', 'X'], by simp [prefixes], rfl⟩
  · exact ⟨['0', 'o'], by simp [prefixes], rfl⟩
  · exact ⟨['0', 'O'], by simp [prefixes], rfl⟩
  · exact ⟨['0', 'b'], by simp [prefixes], rfl⟩
  · exact ⟨['0', 'B'], by simp [prefixes], rfl⟩
  · exact ⟨[], by simp [prefixes], rfl⟩

/-- A decimal numeral is not taken for one with a prefix, whose letter would be no digit. -/
theorem splitRadix_of_spells (h : Spells 10 cs ds) : splitRadix cs = (10, cs) := by
  have hletter : ∀ l : Char, digit? 10 l = none → l ≠ '_' →
      ∀ {cs' ds'}, ¬ Spells 10 ('0' :: l :: cs') ds' := by
    intro l hl hne cs' ds' h'
    cases h' with
    | digit _ h' =>
      cases h' with
      | underscore => exact hne rfl
      | digit hd _ =>
        rw [← digit?_eq_some_iff (by decide), hl] at hd
        cases hd
  unfold splitRadix
  split
  · exact absurd h (hletter 'x' rfl (by decide))
  · exact absurd h (hletter 'X' rfl (by decide))
  · exact absurd h (hletter 'o' rfl (by decide))
  · exact absurd h (hletter 'O' rfl (by decide))
  · exact absurd h (hletter 'b' rfl (by decide))
  · exact absurd h (hletter 'B' rfl (by decide))
  · rfl

theorem splitRadix_append {a : List Char} (ha : (a, r) ∈ prefixes) (h : Spells r cs ds) :
    splitRadix (a ++ cs) = (r, cs) := by
  simp only [prefixes, List.mem_cons, Prod.mk.injEq, List.not_mem_nil, or_false] at ha
  rcases ha with ⟨rfl, rfl⟩ | ⟨rfl, rfl⟩ | ⟨rfl, rfl⟩ | ⟨rfl, rfl⟩ | ⟨rfl, rfl⟩ | ⟨rfl, rfl⟩ |
    ⟨rfl, rfl⟩
  case inr.inr.inr.inr.inr.inr => exact splitRadix_of_spells h
  all_goals rfl

theorem amount?_eq_some_iff : amount? cs = some n ↔ Denotes cs n := by
  constructor
  · intro h
    obtain ⟨ds, hds, rfl⟩ := Option.map_eq_some_iff.1 h
    obtain ⟨a, ha, hcs⟩ := exists_prefix_splitRadix cs
    have hspells := (mapM_digit?_eq_some_iff (le_of_mem_prefixes ha)).1 hds
    exact ⟨a, _, _, ds, ha, hcs, hspells, ofDigits_eq _ _⟩
  · rintro ⟨a, r, body, ds, ha, rfl, hspells, rfl⟩
    have hds := (mapM_digit?_eq_some_iff (le_of_mem_prefixes ha)).2 hspells
    rw [amount?, splitRadix_append ha hspells, digits?, hds, Option.map_some, ofDigits_eq]

end Numeral

/-- A text is an amount if it is a numeral of a number that fits. -/
theorem UInt256.ofText?_eq_some_iff {s : String} {a : UInt256} :
    ofText? s = some a ↔ Numeral.Denotes s.toList a.toNat := by
  rw [ofText?, Option.bind_eq_some_iff]
  constructor
  · rintro ⟨n, hn, ha⟩
    obtain rfl := ofNat?_eq_some_iff.1 ha
    exact Numeral.amount?_eq_some_iff.1 hn
  · intro h
    exact ⟨a.toNat, Numeral.amount?_eq_some_iff.2 h, ofNat?_toNat a⟩

theorem UInt256.ofText?_eq_none_iff {s : String} :
    ofText? s = none ↔ ¬ ∃ n, Numeral.Denotes s.toList n ∧ n < 2 ^ 256 := by
  rw [← not_iff_not, not_not, ← ne_eq, Option.ne_none_iff_exists']
  constructor
  · rintro ⟨a, ha⟩
    exact ⟨a.toNat, ofText?_eq_some_iff.1 ha, a.toNat_lt⟩
  · rintro ⟨n, hn, hlt⟩
    exact ⟨⟨n, hlt⟩, ofText?_eq_some_iff.2 hn⟩

namespace Scalar

variable {s : String}

theorem ofCanonical?_eq_none_iff {a : UInt256} : ofCanonical? a = none ↔ modulus ≤ a.toNat := by
  simp [ofCanonical?]

theorem ofText_eq_ok_iff {x : Scalar} :
    ofText s = .ok x ↔ UInt256.ofText? s = some x.toUInt256 := by
  unfold ofText
  cases UInt256.ofText? s with
  | none => simp
  | some a =>
    rw [Option.some.injEq, ← ofCanonical?_eq_some_iff]
    cases h : ofCanonical? a <;> simp [h]

theorem ofText_eq_nonCanonical_iff :
    ofText s = .error .nonCanonical ↔ ∃ a, UInt256.ofText? s = some a ∧ modulus ≤ a.toNat := by
  unfold ofText
  cases UInt256.ofText? s with
  | none => simp
  | some a =>
    simp only [Option.some.injEq, exists_eq_left', ← ofCanonical?_eq_none_iff]
    cases ofCanonical? a <;> simp

theorem ofText_eq_invalidInteger_iff :
    ofText s = .error .invalidInteger ↔ UInt256.ofText? s = none := by
  unfold ofText
  cases UInt256.ofText? s with
  | none => simp
  | some a => cases h : ofCanonical? a <;> simp [h]

/-- A text is read as a field element exactly if it is a numeral of a number below the modulus, which
then is the representative. A numeral of a greater number is not canonical as long as an amount can
be that large; every other text is no integer. The printed element is a numeral of it. -/
theorem ofText_grammar (s : String) :
    (∀ n, (∃ x, ofText s = .ok x ∧ x.toNat = n) ↔
        Numeral.Denotes s.toList n ∧ n < modulus) ∧
      (ofText s = .error .nonCanonical ↔
        ∃ n, Numeral.Denotes s.toList n ∧ modulus ≤ n ∧ n < 2 ^ 256) ∧
      (ofText s = .error .invalidInteger ↔
        ¬ ∃ n, Numeral.Denotes s.toList n ∧ n < 2 ^ 256) ∧
      ∀ x : Scalar, ofText x.text = .ok x := by
  refine ⟨fun n => ?_, ?_, ?_, ofText_text⟩
  · constructor
    · rintro ⟨x, hx, rfl⟩
      exact ⟨UInt256.ofText?_eq_some_iff.1 (ofText_eq_ok_iff.1 hx), x.toNat_lt⟩
    · rintro ⟨hn, hlt⟩
      exact ⟨⟨n, hlt⟩, ofText_eq_ok_iff.2 (UInt256.ofText?_eq_some_iff.2 hn), rfl⟩
  · rw [ofText_eq_nonCanonical_iff]
    constructor
    · rintro ⟨a, ha, hle⟩
      exact ⟨a.toNat, UInt256.ofText?_eq_some_iff.1 ha, hle, a.toNat_lt⟩
    · rintro ⟨n, hn, hle, hlt⟩
      exact ⟨⟨n, hlt⟩, UInt256.ofText?_eq_some_iff.2 hn, hle⟩
  · rw [ofText_eq_invalidInteger_iff, UInt256.ofText?_eq_none_iff]

/-- A prefix alone is a numeral of zero, and no numeral has a sign. -/
example : ofText "0X_" = .ok 0 ∧ ofText "+1" = .error .invalidInteger := by decide +kernel

end Scalar

end ShieldedWallet
