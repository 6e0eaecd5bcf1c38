/-!
# ShardGossip.Decimal.Double

Numbers with 53 significant bits.

A finite number is a whole multiple of a power of two. `ofDecimal` gives the one closest to a
decimal number, and of two that are equally close the one with an even multiple. Everything is done
in exact arithmetic on whole numbers.
-/

namespace ShardGossip.Decimal

/-- A number with 53 significant bits and a bounded exponent, or what takes the place of one. -/
inductive Double where
  /-- `multiple * 2 ^ exponent`, with a sign that also zero has. -/
  | finite (negative : Bool) (multiple : Nat) (exponent : Int)
  | infinite (negative : Bool)
  | notANumber
  deriving DecidableEq, Repr

namespace Double

/-- The number of significant bits. -/
def precision : Nat := 53

/-- The smallest exponent. -/
def minExponent : Int := -1074

/-- The largest exponent. -/
def maxExponent : Int := 971

/-- `n * base ^ exponent` as a quotient of whole numbers. -/
def scaled (n base : Nat) (exponent : Int) : Nat × Nat :=
  if exponent < 0 then (n, Nat.pow base exponent.natAbs)
  else (n * Nat.pow base exponent.natAbs, 1)

/-- The whole number closest to a quotient, or the even one of two. -/
def roundEven (num den : Nat) : Nat :=
  let q := num / den
  let r := num % den
  if 2 * r < den then q else if den < 2 * r then q + 1 else q + q % 2

/-- The exponent with which a positive quotient takes all significant bits, if that is possible. -/
def exponentOf (num den : Nat) : Int :=
  let guess : Int := num.log2 - den.log2 - precision
  let (n, d) := scaled num 2 (-guess)
  let exponent := if n < Nat.pow 2 precision * (d * den) then guess else guess + 1
  max exponent minExponent

/-- The number closest to a positive quotient. -/
def ofQuotient (negative : Bool) (num den : Nat) : Double :=
  let exponent := exponentOf num den
  let (n, d) := scaled num 2 (-exponent)
  let multiple := roundEven n (d * den)
  let (multiple, exponent) :=
    if multiple = Nat.pow 2 precision then (Nat.pow 2 (precision - 1), exponent + 1)
    else (multiple, exponent)
  if maxExponent < exponent then .infinite negative else .finite negative multiple exponent

/-- Decimal numbers of this order of magnitude or above are too large. -/
def tooLarge : Int := 400

/-- The number closest to `digits * 10 ^ exponent`. -/
def ofDecimal (negative : Bool) (digits : Nat) (exponent : Int) : Double :=
  let magnitude : Int := (toString digits).length + exponent
  if digits = 0 ∨ magnitude < -tooLarge then .finite negative 0 0
  else if tooLarge < magnitude then .infinite negative
  else
    let (num, den) := scaled digits 10 exponent
    ofQuotient negative num den

/-- The whole number closest to a number, halves up, kept between zero and a bound. What is no
number counts as zero. -/
def toNatClamped (bound : Nat) : Double → Nat
  | finite true _ _ => 0
  | finite false multiple exponent =>
    let (num, den) := scaled multiple 2 exponent
    min ((2 * num + den) / (2 * den)) bound
  | infinite true => 0
  | infinite false => bound
  | notANumber => 0

end Double

end ShardGossip.Decimal
