import ShardGossip.Decimal.Double

/-!
# ShardGossip.Decimal.Shortest

The shortest decimal text of a number.

The text has the fewest digits that are closer to the number than to any other one; of several such
texts it is the closest to the number, and of two equally close ones the one away from zero. It is
written out in full, without an exponent.
-/

namespace ShardGossip.Decimal

/-- The decimal number `digits * 10 ^ exponent`. -/
structure Digits where
  digits : Nat
  exponent : Int
  deriving DecidableEq, Repr

/-- A finite number with the bounds of the numbers that are closest to it, in units of a power of
two. -/
structure Neighbourhood where
  low : Nat
  value : Nat
  high : Nat
  closed : Bool
  exponent : Int
  deriving DecidableEq, Repr

namespace Neighbourhood

/-- What is rounded to `multiple * 2 ^ exponent`. Below a power of two the numbers are closer
together than above it. -/
def of (multiple : Nat) (exponent : Int) : Neighbourhood :=
  let atPower := multiple = Nat.pow 2 (Double.precision - 1) ∧ Double.minExponent < exponent
  ⟨if atPower then 4 * multiple - 1 else 4 * multiple - 2, 4 * multiple, 4 * multiple + 2,
    multiple % 2 = 0, exponent - 2⟩

/-- Whole numbers that compare like the multiple `n` of the unit and the multiple `c` of a power of
ten. -/
def weigh (h : Neighbourhood) (power : Int) (n c : Nat) : Nat × Nat :=
  (n * Nat.pow 2 h.exponent.toNat * Nat.pow 10 (-power).toNat,
    c * Nat.pow 10 power.toNat * Nat.pow 2 (-h.exponent).toNat)

/-- Whether `c * 10 ^ power` is rounded to the number. -/
def contains (h : Neighbourhood) (power : Int) (c : Nat) : Bool :=
  let (low, x) := h.weigh power h.low c
  let (high, y) := h.weigh power h.high c
  (low < x || (h.closed && low = x)) && (y < high || (h.closed && y = high))

/-- How many digits the number has before the point; for a number below a tenth, how many zeros
follow the point, as a negative number. -/
def magnitude (h : Neighbourhood) : Int :=
  let shift : Nat := 400
  let (num, den) := Double.scaled (h.value * Nat.pow 10 shift) 2 h.exponent
  ((toString (num / den)).length : Int) - shift

/-- The decimal number with so many digits that is rounded to the number, if there is one; of two
the closer, or else the larger. -/
def withDigits? (h : Neighbourhood) (count : Nat) : Option Digits :=
  let power := h.magnitude - count
  let (value, unit) := h.weigh power h.value 1
  let below := value / unit
  let above := below + 1
  match h.contains power below, h.contains power above with
  | true, true =>
    some ⟨if value - below * unit < above * unit - value then below else above, power⟩
  | true, false => some ⟨below, power⟩
  | false, true => some ⟨above, power⟩
  | false, false => none

/-- The decimal number with the fewest digits. Seventeen are always enough. -/
def shortest (h : Neighbourhood) : Digits :=
  ((List.range 17).findSome? fun n => h.withDigits? (n + 1)).getD ⟨h.value, 0⟩

end Neighbourhood

/-- The digits of a number, with zeros in front up to a width. -/
def padded (width n : Nat) : List Char :=
  let digits := (toString n).toList
  List.replicate (width - digits.length) '0' ++ digits

/-- A list without the zeros at its end. -/
def withoutTrailingZeros (cs : List Char) : List Char :=
  (cs.reverse.dropWhile (· == '0')).reverse

/-- The text of a decimal number. -/
def Digits.text (d : Digits) : String :=
  if 0 ≤ d.exponent then toString (d.digits * Nat.pow 10 d.exponent.toNat)
  else
    let places := (-d.exponent).toNat
    let whole := d.digits / Nat.pow 10 places
    let fraction := withoutTrailingZeros (padded places (d.digits % Nat.pow 10 places))
    if fraction.isEmpty then toString whole else toString whole ++ "." ++ String.ofList fraction

/-- The text of a number. -/
def Double.text : Double → String
  | finite negative multiple exponent =>
    let digits := if multiple = 0 then ⟨0, 0⟩ else (Neighbourhood.of multiple exponent).shortest
    (if negative then "-" else "") ++ digits.text
  | infinite negative => if negative then "-inf" else "inf"
  | notANumber => "NaN"

end ShardGossip.Decimal
