import ShardGossip.Bytes

/-!
# ShardGossip.Crypto.Sha256

The hash function SHA-256 of FIPS 180-4: blocks of 64 bytes, words of 32 bits, 64 rounds.
-/

namespace ShardGossip.Crypto.Sha256

/-- The round constants: the fractions of the cube roots of the first 64 primes. -/
def constants : Array UInt32 := #[
  0x428a2f98, 0x71374491, 0xb5c0fbcf, 0xe9b5dba5, 0x3956c25b, 0x59f111f1, 0x923f82a4, 0xab1c5ed5,
  0xd807aa98, 0x12835b01, 0x243185be, 0x550c7dc3, 0x72be5d74, 0x80deb1fe, 0x9bdc06a7, 0xc19bf174,
  0xe49b69c1, 0xefbe4786, 0x0fc19dc6, 0x240ca1cc, 0x2de92c6f, 0x4a7484aa, 0x5cb0a9dc, 0x76f988da,
  0x983e5152, 0xa831c66d, 0xb00327c8, 0xbf597fc7, 0xc6e00bf3, 0xd5a79147, 0x06ca6351, 0x14292967,
  0x27b70a85, 0x2e1b2138, 0x4d2c6dfc, 0x53380d13, 0x650a7354, 0x766a0abb, 0x81c2c92e, 0x92722c85,
  0xa2bfe8a1, 0xa81a664b, 0xc24b8b70, 0xc76c51a3, 0xd192e819, 0xd6990624, 0xf40e3585, 0x106aa070,
  0x19a4c116, 0x1e376c08, 0x2748774c, 0x34b0bcb5, 0x391c0cb3, 0x4ed8aa4a, 0x5b9cca4f, 0x682e6ff3,
  0x748f82ee, 0x78a5636f, 0x84c87814, 0x8cc70208, 0x90befffa, 0xa4506ceb, 0xbef9a3f7, 0xc67178f2]

/-- The initial hash value: the fractions of the square roots of the first eight primes. -/
def initial : Array UInt32 := #[
  0x6a09e667, 0xbb67ae85, 0x3c6ef372, 0xa54ff53a, 0x510e527f, 0x9b05688c, 0x1f83d9ab, 0x5be0cd19]

/-- The message, a set bit, zeros up to eight bytes before a block ends, and the length in bits. -/
def pad (message : Bytes) : Bytes :=
  let zeros := (55 + 64 - message.length % 64) % 64
  message ++ 0x80 :: List.replicate zeros 0 ++ Bytes.ofNat 8 (message.length * 8)

/-- Rotation to the right. -/
def rotate (word : UInt32) (count : UInt32) : UInt32 :=
  (word >>> count) ||| (word <<< (32 - count))

/-- The words of a padded message. -/
def words : Bytes → Array UInt32
  | bytes => go #[] bytes
where
  /-- Adds the words of the remaining bytes. -/
  go (before : Array UInt32) : Bytes → Array UInt32
    | a :: b :: c :: d :: rest =>
      go (before.push ((((a.toUInt32 <<< 8 ||| b.toUInt32) <<< 8 ||| c.toUInt32) <<< 8)
        ||| d.toUInt32)) rest
    | _ => before

/-- The message schedule of the block that starts at word `start`. -/
def schedule (message : Array UInt32) (start : Nat) : Array UInt32 :=
  (List.range 48).foldl
    (fun w i =>
      let a := w.getD (i + 1) 0
      let b := w.getD (i + 14) 0
      let s0 := rotate a 7 ^^^ rotate a 18 ^^^ (a >>> 3)
      let s1 := rotate b 17 ^^^ rotate b 19 ^^^ (b >>> 10)
      w.push (w.getD i 0 + s0 + w.getD (i + 9) 0 + s1))
    (message.extract start (start + 16))

/-- The eight working variables. -/
structure Work where
  (a b c d e f g h : UInt32)

/-- One round. -/
def step (w : Array UInt32) (v : Work) (t : Nat) : Work :=
  let s1 := rotate v.e 6 ^^^ rotate v.e 11 ^^^ rotate v.e 25
  let choice := (v.e &&& v.f) ^^^ ((~~~ v.e) &&& v.g)
  let t1 := v.h + s1 + choice + constants.getD t 0 + w.getD t 0
  let s0 := rotate v.a 2 ^^^ rotate v.a 13 ^^^ rotate v.a 22
  let majority := (v.a &&& v.b) ^^^ (v.a &&& v.c) ^^^ (v.b &&& v.c)
  ⟨t1 + s0 + majority, v.a, v.b, v.c, v.d + t1, v.e, v.f, v.g⟩

/-- The hash value after the block that starts at word `start`. -/
def compress (message : Array UInt32) (hash : Array UInt32) (start : Nat) : Array UInt32 :=
  let w := schedule message start
  let get i := hash.getD i 0
  let v := (List.range 64).foldl (step w)
    ⟨get 0, get 1, get 2, get 3, get 4, get 5, get 6, get 7⟩
  #[get 0 + v.a, get 1 + v.b, get 2 + v.c, get 3 + v.d,
    get 4 + v.e, get 5 + v.f, get 6 + v.g, get 7 + v.h]

/-- The 32 bytes of the hash of a message. -/
def hash (message : Bytes) : Bytes :=
  let w := words (pad message)
  let blocks := (List.range (w.size / 16)).map (· * 16)
  (blocks.foldl (compress w) initial).toList.flatMap fun word => Bytes.ofNat 4 word.toNat

end ShardGossip.Crypto.Sha256
