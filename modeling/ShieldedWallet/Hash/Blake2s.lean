import ShieldedWallet.Bytes.Endian

/-!
# BLAKE2s

The unkeyed hash BLAKE2s with a digest of 32 bytes. A message is cut into blocks of 64 bytes, the
last one filled up with zeros; each block is mixed into eight chaining words in ten rounds. The last
block is compressed under a flag of its own, so the empty message has one block too.
-/

namespace ShieldedWallet.Blake2s

/-- The eight chaining words. -/
abbrev Chain := Vector UInt32 8

/-- The sixteen working words, also the shape of a message block. -/
abbrev Block := Vector UInt32 16

/-- The initialisation words. -/
def start : Chain :=
  #v[0x6a09e667, 0xbb67ae85, 0x3c6ef372, 0xa54ff53a, 0x510e527f, 0x9b05688c, 0x1f83d9ab, 0x5be0cd19]

/-- The order in which each round takes the message words. -/
def schedule : List (Vector (Fin 16) 16) :=
  [#v[0, 1, 2, 3, 4, 5, 6, 7, 8, 9, 10, 11, 12, 13, 14, 15],
   #v[14, 10, 4, 8, 9, 15, 13, 6, 1, 12, 0, 2, 11, 7, 5, 3],
   #v[11, 8, 12, 0, 5, 2, 15, 13, 10, 14, 3, 6, 7, 1, 9, 4],
   #v[7, 9, 3, 1, 13, 12, 11, 14, 2, 6, 5, 10, 4, 0, 15, 8],
   #v[9, 0, 5, 7, 2, 4, 10, 15, 14, 1, 11, 12, 6, 8, 3, 13],
   #v[2, 12, 6, 10, 0, 11, 8, 3, 4, 13, 7, 5, 15, 14, 1, 9],
   #v[12, 5, 1, 15, 14, 13, 4, 10, 0, 7, 6, 3, 9, 2, 8, 11],
   #v[13, 11, 7, 14, 12, 1, 3, 9, 5, 0, 15, 4, 8, 6, 2, 10],
   #v[6, 15, 14, 9, 11, 3, 0, 8, 12, 2, 13, 7, 1, 4, 10, 5],
   #v[10, 2, 8, 4, 7, 6, 1, 5, 15, 11, 9, 14, 3, 12, 13, 0]]

/-- The rotation of `w` by `k` bits to the right. -/
def rotateRight (w k : UInt32) : UInt32 := w >>> k ||| w <<< (32 - k)

/-- One quarter step: mixes two message words into four working words. -/
def mix (v : Block) (a b c d : Fin 16) (x y : UInt32) : Block :=
  let a₁ := v[a] + v[b] + x
  let d₁ := rotateRight (v[d] ^^^ a₁) 16
  let c₁ := v[c] + d₁
  let b₁ := rotateRight (v[b] ^^^ c₁) 12
  let a₂ := a₁ + b₁ + y
  let d₂ := rotateRight (d₁ ^^^ a₂) 8
  let c₂ := c₁ + d₂
  let b₂ := rotateRight (b₁ ^^^ c₂) 7
  (((v.set a a₂).set b b₂).set c c₂).set d d₂

/-- One round: the columns, then the diagonals. -/
def round (m v : Block) (s : Vector (Fin 16) 16) : Block :=
  let v := mix v 0 4 8 12 m[s[0]] m[s[1]]
  let v := mix v 1 5 9 13 m[s[2]] m[s[3]]
  let v := mix v 2 6 10 14 m[s[4]] m[s[5]]
  let v := mix v 3 7 11 15 m[s[6]] m[s[7]]
  let v := mix v 0 5 10 15 m[s[8]] m[s[9]]
  let v := mix v 1 6 11 12 m[s[10]] m[s[11]]
  let v := mix v 2 7 8 13 m[s[12]] m[s[13]]
  mix v 3 4 9 14 m[s[14]] m[s[15]]

/-- Mixes a block into the chaining words, `count` bytes of the message being consumed by then. -/
def compress (h : Chain) (m : Block) (count : Nat) (last : Bool) : Chain :=
  let offset : Chain :=
    #v[0, 0, 0, 0, UInt32.ofNat count, UInt32.ofNat (count >>> 32),
       if last then 0xffffffff else 0, 0]
  let v : Block := h ++ start.zipWith (· ^^^ ·) offset
  let v := schedule.foldl (round m) v
  Vector.ofFn fun i : Fin 8 => h[i] ^^^ v[i.val] ^^^ v[i.val + 8]

/-- The first 64 bytes as little-endian words, missing bytes being zero. -/
def block (bs : Bytes) : Block :=
  Vector.ofFn fun i : Fin 16 => UInt32.ofNat (Bytes.toNatLE ((bs.drop (4 * i.val)).take 4))

/-- Compresses `n` full blocks and a last one, `count` bytes being consumed before. -/
def absorb : (n : Nat) → Chain → (count : Nat) → Bytes → Chain
  | 0, h, count, bs => compress h (block bs) (count + bs.length) true
  | n + 1, h, count, bs =>
    absorb n (compress h (block (bs.take 64)) (count + 64) false) (count + 64) (bs.drop 64)

/-- The chaining words before the first block: digest length 32, no key, one leaf. -/
def parameters : Chain := start.set 0 (start[0] ^^^ 0x01010020)

/-- The digest of a message. -/
def digest (bs : Bytes) : FixedBytes 32 :=
  let h := absorb ((bs.length - 1) / 64) parameters 0 bs
  Vector.ofFn fun i : Fin 32 => (h[i.val / 4] >>> UInt32.ofNat (8 * (i.val % 4))).toUInt8

end ShieldedWallet.Blake2s
