/-!
# Amounts

Amounts, balances, fees and rates are unsigned integers below `2 ^ 256`. Every operation comes in
the form its callers need: the checked forms say when the exact result has no representation, the
wrapping forms reduce it modulo `2 ^ 256`.
-/

namespace ShieldedWallet

/-- The number of values of a 256-bit word. -/
abbrev UInt256.size : Nat :=
  115792089237316195423570985008687907853269984665640564039457584007913129639936

/-- An unsigned integer of 256 bits. -/
@[ext]
structure UInt256 where
  /-- The value. -/
  toNat : Nat
  /-- The value fits. -/
  toNat_lt : toNat < UInt256.size
deriving DecidableEq

namespace UInt256

/-- The value `n`, if it fits. -/
def ofNat? (n : Nat) : Option UInt256 :=
  if h : n < size then some ⟨n, h⟩ else none

/-- The value `n` reduced modulo `2 ^ 256`. -/
def ofNat (n : Nat) : UInt256 := ⟨n % size, Nat.mod_lt _ (by decide)⟩

/-- Every machine word is a 256-bit value. -/
def ofUInt64 (n : UInt64) : UInt256 :=
  ⟨n.toNat, Nat.lt_of_lt_of_le n.toNat_lt (by decide)⟩

instance {n : Nat} : OfNat UInt256 n := ⟨ofNat n⟩

instance : Inhabited UInt256 := ⟨0⟩

instance : LE UInt256 := ⟨fun a b => a.toNat ≤ b.toNat⟩

instance : LT UInt256 := ⟨fun a b => a.toNat < b.toNat⟩

instance (a b : UInt256) : Decidable (a ≤ b) := inferInstanceAs (Decidable (a.toNat ≤ b.toNat))

instance (a b : UInt256) : Decidable (a < b) := inferInstanceAs (Decidable (a.toNat < b.toNat))

/-- The sum, if it fits. -/
def add? (a b : UInt256) : Option UInt256 := ofNat? (a.toNat + b.toNat)

/-- The difference, if it is not negative. -/
def sub? (a b : UInt256) : Option UInt256 :=
  if b ≤ a then some ⟨a.toNat - b.toNat, Nat.lt_of_le_of_lt (Nat.sub_le _ _) a.toNat_lt⟩ else none

/-- The product, if it fits. -/
def mul? (a b : UInt256) : Option UInt256 := ofNat? (a.toNat * b.toNat)

/-- The sum modulo `2 ^ 256`. -/
def wrappingAdd (a b : UInt256) : UInt256 := ofNat (a.toNat + b.toNat)

/-- The product modulo `2 ^ 256`. -/
def wrappingMul (a b : UInt256) : UInt256 := ofNat (a.toNat * b.toNat)

/-- The quotient, rounded down. -/
def div (a b : UInt256) : UInt256 :=
  ⟨a.toNat / b.toNat, Nat.lt_of_le_of_lt (Nat.div_le_self _ _) a.toNat_lt⟩

/-- The remainder of the division. -/
def mod (a b : UInt256) : UInt256 :=
  ⟨a.toNat % b.toNat, Nat.lt_of_le_of_lt (Nat.mod_le _ _) a.toNat_lt⟩

instance : Div UInt256 := ⟨div⟩

instance : Mod UInt256 := ⟨mod⟩

/-! ## The value of each operation -/

theorem le_iff {a b : UInt256} : a ≤ b ↔ a.toNat ≤ b.toNat := Iff.rfl

theorem lt_iff {a b : UInt256} : a < b ↔ a.toNat < b.toNat := Iff.rfl

@[simp] theorem toNat_ofNat (n : Nat) : (ofNat n).toNat = n % size := rfl

@[simp] theorem toNat_zero : (0 : UInt256).toNat = 0 := rfl

@[simp] theorem toNat_div (a b : UInt256) : (a / b).toNat = a.toNat / b.toNat := rfl

@[simp] theorem toNat_mod (a b : UInt256) : (a % b).toNat = a.toNat % b.toNat := rfl

@[simp] theorem toNat_wrappingAdd (a b : UInt256) :
    (a.wrappingAdd b).toNat = (a.toNat + b.toNat) % size := rfl

@[simp] theorem toNat_wrappingMul (a b : UInt256) :
    (a.wrappingMul b).toNat = a.toNat * b.toNat % size := rfl

@[simp] theorem ofNat?_toNat (a : UInt256) : ofNat? a.toNat = some a := by
  simp [ofNat?, a.toNat_lt]

theorem ofNat?_eq_some_iff {n : Nat} {a : UInt256} : ofNat? n = some a ↔ n = a.toNat := by
  constructor
  · intro h
    unfold ofNat? at h
    split at h
    · rw [← Option.some.inj h]
    · simp at h
  · rintro rfl
    simp

theorem ofNat?_eq_none_iff {n : Nat} : ofNat? n = none ↔ size ≤ n := by
  unfold ofNat?
  split <;> simp <;> omega

/-- A checked sum exists exactly when it is the exact sum. -/
theorem add?_eq_some_iff {a b c : UInt256} : a.add? b = some c ↔ a.toNat + b.toNat = c.toNat :=
  ofNat?_eq_some_iff

theorem add?_eq_none_iff {a b : UInt256} : a.add? b = none ↔ size ≤ a.toNat + b.toNat :=
  ofNat?_eq_none_iff

/-- A checked product exists exactly when it is the exact product. -/
theorem mul?_eq_some_iff {a b c : UInt256} : a.mul? b = some c ↔ a.toNat * b.toNat = c.toNat :=
  ofNat?_eq_some_iff

/-- A checked difference exists exactly when adding it back gives the minuend. -/
theorem sub?_eq_some_iff {a b c : UInt256} : a.sub? b = some c ↔ a.toNat = b.toNat + c.toNat := by
  unfold sub?
  split
  case isTrue h =>
    rw [le_iff] at h
    simp only [Option.some.injEq, UInt256.ext_iff]
    omega
  case isFalse h =>
    rw [le_iff] at h
    simp only [reduceCtorEq, false_iff]
    omega

theorem sub?_eq_none_iff {a b : UInt256} : a.sub? b = none ↔ a.toNat < b.toNat := by
  unfold sub?
  split
  case isTrue h => rw [le_iff] at h; simp; omega
  case isFalse h => rw [le_iff] at h; simp; omega

end UInt256

end ShieldedWallet
