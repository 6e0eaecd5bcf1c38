import ShardGossip.Bytes

/-!
# ShardGossip.Crypto.Sha512

The hash function SHA-512 of FIPS 180-4: blocks of 128 bytes, words of 64 bits, 80 rounds.
-/

namespace ShardGossip.Crypto.Sha512

/-- The round constants: the fractions of the cube roots of the first 80 primes. -/
def constants : Array UInt64 := #[
  0x428a2f98d728ae22, 0x7137449123ef65cd, 0xb5c0fbcfec4d3b2f, 0xe9b5dba58189dbbc,
  0x3956c25bf348b538, 0x59f111f1b605d019, 0x923f82a4af194f9b, 0xab1c5ed5da6d8118,
  0xd807aa98a3030242, 0x12835b0145706fbe, 0x243185be4ee4b28c, 0x550c7dc3d5ffb4e2,
  0x72be5d74f27b896f, 0x80deb1fe3b1696b1, 0x9bdc06a725c71235, 0xc19bf174cf692694,
  0xe49b69c19ef14ad2, 0xefbe4786384f25e3, 0x0fc19dc68b8cd5b5, 0x240ca1cc77ac9c65,
  0x2de92c6f592b0275, 0x4a7484aa6ea6e483, 0x5cb0a9dcbd41fbd4, 0x76f988da831153b5,
  0x983e5152ee66dfab, 0xa831c66d2db43210, 0xb00327c898fb213f, 0xbf597fc7beef0ee4,
  0xc6e00bf33da88fc2, 0xd5a79147930aa725, 0x06ca6351e003826f, 0x142929670a0e6e70,
  0x27b70a8546d22ffc, 0x2e1b21385c26c926, 0x4d2c6dfc5ac42aed, 0x53380d139d95b3df,
  0x650a73548baf63de, 0x766a0abb3c77b2a8, 0x81c2c92e47edaee6, 0x92722c851482353b,
  0xa2bfe8a14cf10364, 0xa81a664bbc423001, 0xc24b8b70d0f89791, 0xc76c51a30654be30,
  0xd192e819d6ef5218, 0xd69906245565a910, 0xf40e35855771202a, 0x106aa07032bbd1b8,
  0x19a4c116b8d2d0c8, 0x1e376c085141ab53, 0x2748774cdf8eeb99, 0x34b0bcb5e19b48a8,
  0x391c0cb3c5c95a63, 0x4ed8aa4ae3418acb, 0x5b9cca4f7763e373, 0x682e6ff3d6b2b8a3,
  0x748f82ee5defb2fc, 0x78a5636f43172f60, 0x84c87814a1f0ab72, 0x8cc702081a6439ec,
  0x90befffa23631e28, 0xa4506cebde82bde9, 0xbef9a3f7b2c67915, 0xc67178f2e372532b,
  0xca273eceea26619c, 0xd186b8c721c0c207, 0xeada7dd6cde0eb1e, 0xf57d4f7fee6ed178,
  0x06f067aa72176fba, 0x0a637dc5a2c898a6, 0x113f9804bef90dae, 0x1b710b35131c471b,
  0x28db77f523047d84, 0x32caab7b40c72493, 0x3c9ebe0a15c9bebc, 0x431d67c49c100d4c,
  0x4cc5d4becb3e42b6, 0x597f299cfc657e2a, 0x5fcb6fab3ad6faec, 0x6c44198c4a475817]

/-- The initial hash value: the fractions of the square roots of the first eight primes. -/
def initial : Array UInt64 := #[
  0x6a09e667f3bcc908, 0xbb67ae8584caa73b, 0x3c6ef372fe94f82b, 0xa54ff53a5f1d36f1,
  0x510e527fade682d1, 0x9b05688c2b3e6c1f, 0x1f83d9abfb41bd6b, 0x5be0cd19137e2179]

/-- The message, a set bit, zeros up to sixteen bytes before a block ends, and the length in
bits. -/
def pad (message : Bytes) : Bytes :=
  let zeros := (111 + 128 - message.length % 128) % 128
  message ++ 0x80 :: List.replicate zeros 0 ++ Bytes.ofNat 16 (message.length * 8)

/-- Rotation to the right. -/
def rotate (word : UInt64) (count : UInt64) : UInt64 :=
  (word >>> count) ||| (word <<< (64 - count))

/-- The words of a padded message. -/
def words : Bytes → Array UInt64
  | bytes => go #[] bytes
where
  /-- Adds the words of the remaining bytes. -/
  go (before : Array UInt64) : Bytes → Array UInt64
    | a :: b :: c :: d :: e :: f :: g :: h :: rest =>
      let append (word : UInt64) (byte : UInt8) := word <<< 8 ||| byte.toUInt64
      go (before.push ([a, b, c, d, e, f, g, h].foldl append 0)) rest
    | _ => before

/-- The message schedule of the block that starts at word `start`. -/
def schedule (message : Array UInt64) (start : Nat) : Array UInt64 :=
  (List.range 64).foldl
    (fun w i =>
      let a := w.getD (i + 1) 0
      let b := w.getD (i + 14) 0
      let s0 := rotate a 1 ^^^ rotate a 8 ^^^ (a >>> 7)
      let s1 := rotate b 19 ^^^ rotate b 61 ^^^ (b >>> 6)
      w.push (w.getD i 0 + s0 + w.getD (i + 9) 0 + s1))
    (message.extract start (start + 16))

/-- The eight working variables. -/
structure Work where
  (a b c d e f g h : UInt64)

/-- One round. -/
def step (w : Array UInt64) (v : Work) (t : Nat) : Work :=
  let s1 := rotate v.e 14 ^^^ rotate v.e 18 ^^^ rotate v.e 41
  let choice := (v.e &&& v.f) ^^^ ((~~~ v.e) &&& v.g)
  let t1 := v.h + s1 + choice + constants.getD t 0 + w.getD t 0
  let s0 := rotate v.a 28 ^^^ rotate v.a 34 ^^^ rotate v.a 39
  let majority := (v.a &&& v.b) ^^^ (v.a &&& v.c) ^^^ (v.b &&& v.c)
  ⟨t1 + s0 + majority, v.a, v.b, v.c, v.d + t1, v.e, v.f, v.g⟩

/-- The hash value after the block that starts at word `start`. -/
def compress (message : Array UInt64) (hash : Array UInt64) (start : Nat) : Array UInt64 :=
  let w := schedule message start
  let get i := hash.getD i 0
  let v := (List.range 80).foldl (step w)
    ⟨get 0, get 1, get 2, get 3, get 4, get 5, get 6, get 7⟩
  #[get 0 + v.a, get 1 + v.b, get 2 + v.c, get 3 + v.d,
    get 4 + v.e, get 5 + v.f, get 6 + v.g, get 7 + v.h]

/-- The 64 bytes of the hash of a message. -/
def hash (message : Bytes) : Bytes :=
  let w := words (pad message)
  let blocks := (List.range (w.size / 16)).map (· * 16)
  (blocks.foldl (compress w) initial).toList.flatMap fun word => Bytes.ofNat 8 word.toNat

end ShardGossip.Crypto.Sha512
