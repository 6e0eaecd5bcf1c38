import ShardGossip.Crypto.Sha512

/-!
# ShardGossip.Crypto.Ed25519

Signatures by Ed25519 as in RFC 8032.

Field elements are natural numbers below the prime `2 ^ 255 - 19`. Points of the twisted Edwards
curve `-x² + y² = 1 + d x² y²` are in extended coordinates `(X : Y : Z : T)` with `x = X / Z`,
`y = Y / Z` and `x y = T / Z`, so that adding and doubling take no division.
-/

namespace ShardGossip.Crypto.Ed25519

/-- The prime of the field. -/
def prime : Nat := Nat.pow 2 255 - 19

/-- The order of the base point. -/
def order : Nat := Nat.pow 2 252 + 27742317777372353535851937790883648493

/-- The constant `d` of the curve, `-121665 / 121666`. -/
def curveD : Nat := 0x52036cee2b6ffe738cc740797779e89800700a4d4141d8ab75eb4dca135978a3

/-- The product of two field elements. -/
def mul (a b : Nat) : Nat := a * b % prime

/-- The sum of two field elements. -/
def add (a b : Nat) : Nat := (a + b) % prime

/-- The difference of two field elements. -/
def sub (a b : Nat) : Nat := (a + (prime - b)) % prime

/-- The power of a field element whose exponent has at most `bits` binary digits. -/
def pow (base exponent : Nat) : (bits : Nat) → Nat
  | 0 => 1
  | bits + 1 =>
    let root := pow base (exponent / 2) bits
    let square := mul root root
    if exponent % 2 = 1 then mul square base else square

/-- The inverse of a field element, by Fermat's little theorem. -/
def inverse (a : Nat) : Nat := pow a (prime - 2) 255

/-- A point in extended coordinates. -/
structure Point where
  x : Nat
  y : Nat
  z : Nat
  t : Nat

namespace Point

/-- The neutral element. -/
def zero : Point := ⟨0, 1, 1, 0⟩

/-- The base point: `y = 4 / 5` with the even `x`. -/
def base : Point :=
  let x := 0x216936d3cd6e53fec0a4e231fdd6dc5c692cc7609525a7b2c9562d608f25d51a
  let y := 0x6666666666666666666666666666666666666666666666666666666666666658
  ⟨x, y, 1, mul x y⟩

/-- The sum of two points. -/
def plus (p q : Point) : Point :=
  let a := mul (sub p.y p.x) (sub q.y q.x)
  let b := mul (add p.y p.x) (add q.y q.x)
  let c := mul (mul p.t (2 * curveD)) q.t
  let d := mul (2 * p.z) q.z
  let e := sub b a
  let f := sub d c
  let g := add d c
  let h := add b a
  ⟨mul e f, mul g h, mul f g, mul e h⟩

/-- The double of a point. -/
def double (p : Point) : Point :=
  let a := mul p.x p.x
  let b := mul p.y p.y
  let c := mul (2 * p.z) p.z
  let h := add a b
  let e := sub h (mul (p.x + p.y) (p.x + p.y))
  let g := sub a b
  let f := add c g
  ⟨mul e f, mul g h, mul f g, mul e h⟩

/-- The multiple of a point by a number with at most `bits` binary digits. -/
def times (p : Point) (n : Nat) : (bits : Nat) → Point
  | 0 => zero
  | bits + 1 =>
    let twice := (times p (n / 2) bits).double
    if n % 2 = 1 then twice.plus p else twice

end Point

/-- A number in 32 bytes, least significant first. -/
def littleEndian (n : Nat) : Bytes := (Bytes.ofNat 32 n).reverse

/-- The number of a byte string, least significant byte first. -/
def ofLittleEndian (bytes : Bytes) : Nat := Bytes.toNat bytes.reverse

/-- The 32 bytes of a point: `y`, with the parity of `x` as the top bit. -/
def Point.encode (p : Point) : Bytes :=
  let z := inverse p.z
  littleEndian (mul p.y z + mul p.x z % 2 * Nat.pow 2 255)

/-- A signing key, with what is computed from its seed once. -/
structure Key where
  scalar : Nat
  nonceSeed : Bytes
  publicKey : Bytes

/-- The secret scalar of a hash: a multiple of eight with the bit of `2 ^ 254` as its highest. -/
def clamp (n : Nat) : Nat :=
  n % Nat.pow 2 254 / 8 * 8 + Nat.pow 2 254

/-- The key of a seed of 32 bytes. -/
def Key.ofSeed (seed : Bytes) : Key :=
  let digest := Sha512.hash seed
  let scalar := clamp (ofLittleEndian (digest.take 32))
  ⟨scalar, digest.drop 32, (Point.base.times scalar 255).encode⟩

/-- The number modulo the order that a message hashes to. -/
def hashToScalar (message : Bytes) : Nat :=
  ofLittleEndian (Sha512.hash message) % order

/-- The 64 bytes of the signature of a message. -/
def Key.sign (key : Key) (message : Bytes) : Bytes :=
  let r := hashToScalar (key.nonceSeed ++ message)
  let commitment := (Point.base.times r 253).encode
  let k := hashToScalar (commitment ++ key.publicKey ++ message)
  commitment ++ littleEndian ((r + k * key.scalar) % order)

end ShardGossip.Crypto.Ed25519
