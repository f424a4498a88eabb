import ShieldedWallet.Bytes.Endian

/-!
# Keccak-256

The sponge over Keccak-f[1600] with a rate of 136 bytes and the padding `0x01 … 0x80`. The state is
25 lanes of 64 bits; the lane in column `x` and row `y` has the index `x + 5 * y`.
-/

namespace ShieldedWallet.Keccak

/-- The 25 lanes. -/
abbrev Lanes := Vector UInt64 25

/-- The bytes absorbed by one permutation. -/
def rate : Nat := 136

/-- How far each lane is rotated. -/
def offsets : Vector UInt64 25 :=
  #v[0, 1, 62, 28, 27,
     36, 44, 6, 55, 20,
     3, 10, 43, 25, 39,
     41, 45, 15, 21, 8,
     18, 2, 61, 56, 14]

/-- The constant added to the first lane in each round. -/
def roundConstants : List UInt64 :=
  [0x0000000000000001, 0x0000000000008082, 0x800000000000808a, 0x8000000080008000,
   0x000000000000808b, 0x0000000080000001, 0x8000000080008081, 0x8000000000008009,
   0x000000000000008a, 0x0000000000000088, 0x0000000080008009, 0x000000008000000a,
   0x000000008000808b, 0x800000000000008b, 0x8000000000008089, 0x8000000000008003,
   0x8000000000008002, 0x8000000000000080, 0x000000000000800a, 0x800000008000000a,
   0x8000000080008081, 0x8000000000008080, 0x0000000080000001, 0x8000000080008008]

/-- The rotation of `w` by `k` bits to the left. -/
def rotateLeft (w k : UInt64) : UInt64 := w <<< k ||| w >>> (64 - k)

/-- The lane in column `x` and row `y`, both taken modulo five. -/
def lane (a : Lanes) (x y : Nat) : UInt64 := a[x % 5 + 5 * (y % 5)]

/-- The state whose lane in column `x` and row `y` is `f x y`. -/
def tabulate (f : (x y : Nat) → UInt64) : Lanes := Vector.ofFn fun i => f (i % 5) (i / 5)

/-- Adds to each lane the parities of two neighbouring columns. -/
def theta (a : Lanes) : Lanes :=
  let parities : Vector UInt64 5 := Vector.ofFn fun x =>
    lane a x 0 ^^^ lane a x 1 ^^^ lane a x 2 ^^^ lane a x 3 ^^^ lane a x 4
  tabulate fun x y =>
    lane a x y ^^^ parities[(x + 4) % 5] ^^^ rotateLeft parities[(x + 1) % 5] 1

/-- Rotates the lanes and moves them to their new places. -/
def rhoPi (a : Lanes) : Lanes :=
  tabulate fun x y => rotateLeft (lane a (x + 3 * y) x) (lane offsets (x + 3 * y) x)

/-- Combines each lane with the two to its right. -/
def chi (a : Lanes) : Lanes :=
  tabulate fun x y => lane a x y ^^^ (~~~ lane a (x + 1) y &&& lane a (x + 2) y)

def round (a : Lanes) (c : UInt64) : Lanes :=
  let a := chi (rhoPi (theta a))
  a.set 0 (a[0] ^^^ c)

/-- The permutation Keccak-f[1600]. -/
def permute (a : Lanes) : Lanes := roundConstants.foldl round a

/-- Adds a block of bytes to the state. -/
def addBlock (a : Lanes) (bs : Bytes) : Lanes :=
  Vector.ofFn fun i => a[i] ^^^ UInt64.ofNat (Bytes.toNatLE ((bs.drop (8 * i.val)).take 8))

/-- Absorbs `n` blocks. -/
def absorb : (n : Nat) → Lanes → Bytes → Lanes
  | 0, a, _ => a
  | n + 1, a, bs => absorb n (permute (addBlock a (bs.take rate))) (bs.drop rate)

/-- The message filled up to a multiple of the rate. -/
def padded (bs : Bytes) : Bytes :=
  let missing := rate - bs.length % rate
  if missing = 1 then bs ++ [0x81] else bs ++ 0x01 :: List.replicate (missing - 2) 0 ++ [0x80]

/-- The digest of a message. -/
def digest (bs : Bytes) : FixedBytes 32 :=
  let a := absorb (bs.length / rate + 1) (Vector.replicate 25 0) (padded bs)
  Vector.ofFn fun i : Fin 32 => (a[i.val / 8] >>> UInt64.ofNat (8 * (i.val % 8))).toUInt8

end ShieldedWallet.Keccak
