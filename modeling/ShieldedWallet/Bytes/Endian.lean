/-!
# Numbers as byte strings

A byte string of length `k` and a number below `count k` are the same thing in two orders: least
significant byte first, and most significant byte first. The two read-back laws at the end say that
nothing is lost.
-/

namespace ShieldedWallet

/-- A byte string of any length. -/
abbrev Bytes := List UInt8

/-- A byte string of exactly `k` bytes. -/
abbrev FixedBytes (k : Nat) := Vector UInt8 k

namespace Bytes

/-- The number whose base-256 digits are `bs`, least significant first. -/
def toNatLE : Bytes → Nat
  | [] => 0
  | b :: bs => b.toNat + 256 * toNatLE bs

/-- The number whose base-256 digits are `bs`, most significant first. -/
def toNatBE (bs : Bytes) : Nat := toNatLE bs.reverse

/-- The `k` lowest base-256 digits of `n`, least significant first. -/
def ofNatLE : (k n : Nat) → Bytes
  | 0, _ => []
  | k + 1, n => UInt8.ofNat n :: ofNatLE k (n / 256)

/-- The `k` lowest base-256 digits of `n`, most significant first. -/
def ofNatBE (k n : Nat) : Bytes := (ofNatLE k n).reverse

@[simp] theorem length_ofNatLE (k n : Nat) : (ofNatLE k n).length = k := by
  induction k generalizing n with
  | zero => rfl
  | succ k ih => simp [ofNatLE, ih]

@[simp] theorem length_ofNatBE (k n : Nat) : (ofNatBE k n).length = k := by simp [ofNatBE]

/-- How many byte strings of length `k` there are. -/
def count : (k : Nat) → Nat
  | 0 => 1
  | k + 1 => 256 * count k

/-- A byte string of length `k` denotes a number below `count k`. -/
theorem toNatLE_lt (bs : Bytes) : toNatLE bs < count bs.length := by
  induction bs with
  | nil => simp [toNatLE, count]
  | cons b bs ih =>
    have hb := b.toNat_lt
    simp only [toNatLE, List.length_cons, count]
    omega

theorem toNatBE_lt (bs : Bytes) : toNatBE bs < count bs.length := by
  simpa [toNatBE] using toNatLE_lt bs.reverse

/-- Reading the digits of `n` gives `n` back, up to the digits that were cut off. -/
theorem toNatLE_ofNatLE (k n : Nat) : toNatLE (ofNatLE k n) = n % count k := by
  induction k generalizing n with
  | zero => simp [ofNatLE, toNatLE, count, Nat.mod_one]
  | succ k ih =>
    have hb : (UInt8.ofNat n).toNat = n % 256 := UInt8.toNat_ofNat'
    rw [ofNatLE, toNatLE, ih, hb, count, Nat.mod_mul]

theorem toNatBE_ofNatBE (k n : Nat) : toNatBE (ofNatBE k n) = n % count k := by
  simp [toNatBE, ofNatBE, toNatLE_ofNatLE]

/-- Writing the number that a byte string denotes gives the byte string back. -/
theorem ofNatLE_toNatLE (bs : Bytes) : ofNatLE bs.length (toNatLE bs) = bs := by
  induction bs with
  | nil => rfl
  | cons b bs ih =>
    have hb := b.toNat_lt
    simp only [List.length_cons, ofNatLE, toNatLE]
    congr 1
    · rw [← UInt8.toNat_inj, UInt8.toNat_ofNat']
      omega
    · rw [show (b.toNat + 256 * toNatLE bs) / 256 = toNatLE bs by omega, ih]

theorem ofNatBE_toNatBE (bs : Bytes) : ofNatBE bs.length (toNatBE bs) = bs := by
  have h := ofNatLE_toNatLE bs.reverse
  simp only [List.length_reverse] at h
  simp [ofNatBE, toNatBE, h]

theorem ofNatLE_injective {k n n' : Nat} (hn : n < count k) (hn' : n' < count k)
    (h : ofNatLE k n = ofNatLE k n') : n = n' := by
  have hread := congrArg toNatLE h
  rwa [toNatLE_ofNatLE, toNatLE_ofNatLE, Nat.mod_eq_of_lt hn, Nat.mod_eq_of_lt hn'] at hread

theorem ofNatBE_injective {k n n' : Nat} (hn : n < count k) (hn' : n' < count k)
    (h : ofNatBE k n = ofNatBE k n') : n = n' :=
  ofNatLE_injective hn hn' (List.reverse_inj.1 h)

/-- `bs` as a byte string of known length, if it has that length. -/
def toFixed? (k : Nat) (bs : Bytes) : Option (FixedBytes k) :=
  if h : bs.length = k then some ⟨bs.toArray, by simpa using h⟩ else none

@[simp] theorem toFixed?_toList {k : Nat} (v : FixedBytes k) : toFixed? k v.toList = some v := by
  obtain ⟨a, rfl⟩ := v
  simp [toFixed?]

theorem toFixed?_eq_some_iff {k : Nat} {bs : Bytes} {v : FixedBytes k} :
    toFixed? k bs = some v ↔ bs = v.toList := by
  constructor
  · intro h
    unfold toFixed? at h
    split at h
    · rw [← Option.some.inj h]
      simp [Vector.toList]
    · simp at h
  · rintro rfl
    simp

end Bytes

namespace FixedBytes

/-- The `k` lowest base-256 digits of `n`, least significant first. -/
def ofNatLE (k n : Nat) : FixedBytes k := ⟨(Bytes.ofNatLE k n).toArray, by simp⟩

/-- The `k` lowest base-256 digits of `n`, most significant first. -/
def ofNatBE (k n : Nat) : FixedBytes k := ⟨(Bytes.ofNatBE k n).toArray, by simp⟩

/-- The number `v` denotes, least significant byte first. -/
def toNatLE {k : Nat} (v : FixedBytes k) : Nat := Bytes.toNatLE v.toList

/-- The number `v` denotes, most significant byte first. -/
def toNatBE {k : Nat} (v : FixedBytes k) : Nat := Bytes.toNatBE v.toList

theorem toNatLE_lt {k : Nat} (v : FixedBytes k) : v.toNatLE < Bytes.count k := by
  simpa [toNatLE] using Bytes.toNatLE_lt v.toList

theorem toNatBE_lt {k : Nat} (v : FixedBytes k) : v.toNatBE < Bytes.count k := by
  simpa [toNatBE] using Bytes.toNatBE_lt v.toList

@[simp] theorem toList_ofNatLE (k n : Nat) : (ofNatLE k n).toList = Bytes.ofNatLE k n := by
  simp [ofNatLE, Vector.toList]

@[simp] theorem toList_ofNatBE (k n : Nat) : (ofNatBE k n).toList = Bytes.ofNatBE k n := by
  simp [ofNatBE, Vector.toList]

theorem toNatLE_ofNatLE (k n : Nat) : (ofNatLE k n).toNatLE = n % Bytes.count k := by
  simp [toNatLE, Bytes.toNatLE_ofNatLE]

theorem toNatBE_ofNatBE (k n : Nat) : (ofNatBE k n).toNatBE = n % Bytes.count k := by
  simp [toNatBE, Bytes.toNatBE_ofNatBE]

theorem ofNatLE_toNatLE {k : Nat} (v : FixedBytes k) : ofNatLE k v.toNatLE = v := by
  have h := Bytes.ofNatLE_toNatLE v.toList
  rw [Vector.length_toList] at h
  apply Vector.toList_inj.1
  rw [toList_ofNatLE]
  exact h

theorem ofNatBE_toNatBE {k : Nat} (v : FixedBytes k) : ofNatBE k v.toNatBE = v := by
  have h := Bytes.ofNatBE_toNatBE v.toList
  rw [Vector.length_toList] at h
  apply Vector.toList_inj.1
  rw [toList_ofNatBE]
  exact h

end FixedBytes

end ShieldedWallet
