import ShardGossip.Bytes.Utf8
import ShardGossip.Json.Value

/-!
# ShardGossip.Json.Reader

Reading JSON text.

The reader follows the JSON grammar: any white space between tokens, any nesting, no trailing
commas, no leading zeros, no bare control characters in strings. It is strict about syntax and
lenient about content: a string with a lone surrogate escape or with bytes that are no text, and a
number that is no integer literal, are read as values without content (see `Json.Value`).

Every step takes the bytes that are left and gives back what it read with what is left then. The
recursion is bounded by `fuel`; `parse?` supplies twice the length of the text and two, which is
always enough, because of every two nested calls at least one takes a byte.
-/

namespace ShardGossip.Json

/-- Space, tab, line feed and carriage return. -/
def isSpace (byte : UInt8) : Bool :=
  byte == 32 || byte == 9 || byte == 10 || byte == 13

/-- What follows the white space in front. -/
def skipSpace (bytes : Bytes) : Bytes :=
  bytes.dropWhile isSpace

/-- What follows `token`, if the bytes start with it. -/
def expect? : (token : Bytes) → Bytes → Option Bytes
  | [], rest => some rest
  | _ :: _, [] => none
  | t :: token, byte :: rest => if t = byte then expect? token rest else none

/-- The value of a hexadecimal digit of either case. -/
def hexValue? (byte : UInt8) : Option Nat :=
  if 48 ≤ byte ∧ byte ≤ 57 then some (byte.toNat - 48)
  else if 97 ≤ byte ∧ byte ≤ 102 then some (byte.toNat - 87)
  else if 65 ≤ byte ∧ byte ≤ 70 then some (byte.toNat - 55)
  else none

/-- The number that four hexadecimal digits spell. -/
def hexUnit? (a b c d : UInt8) : Option Nat := do
  let a ← hexValue? a
  let b ← hexValue? b
  let c ← hexValue? c
  let d ← hexValue? d
  return ((a * 16 + b) * 16 + c) * 16 + d

/-- A unit that must be followed by a low surrogate. -/
def isHighSurrogate (unit : Nat) : Bool := 0xD800 ≤ unit && unit ≤ 0xDBFF

/-- A unit that must follow a high surrogate. -/
def isLowSurrogate (unit : Nat) : Bool := 0xDC00 ≤ unit && unit ≤ 0xDFFF

/-- The character that a surrogate pair stands for. -/
def pairChar (high low : Nat) : Char :=
  Char.ofNat (0x10000 + (high - 0xD800) * 1024 + (low - 0xDC00))

/-- The low surrogate that six bytes escape, if they do. -/
def lowSurrogate? (slash u e f g h : UInt8) : Option Nat :=
  if slash = 92 ∧ u = 117 then
    match hexUnit? e f g h with
    | some low => if isLowSurrogate low then some low else none
    | none => none
  else none

/-- The byte that a one-letter escape stands for. -/
def shortEscape? (byte : UInt8) : Option UInt8 :=
  if byte = 34 then some 34
  else if byte = 92 then some 92
  else if byte = 47 then some 47
  else if byte = 98 then some 8
  else if byte = 102 then some 12
  else if byte = 110 then some 10
  else if byte = 114 then some 13
  else if byte = 116 then some 9
  else none

/-- Reads a string from after its opening quote to after its closing one. `before` holds the bytes
of the text so far in reverse, and `whole` is false once a lone surrogate was met. -/
def readString (whole : Bool) (before : Bytes) : Bytes → Option (Option String × Bytes)
  | [] => none
  | byte :: rest =>
    if byte = 34 then some (if whole then Utf8.decode? before.reverse else none, rest)
    else if byte = 92 then
      match rest with
      | [] => none
      | letter :: rest =>
        if letter = 117 then
          match rest with
          | a :: b :: c :: d :: rest =>
            match hexUnit? a b c d with
            | none => none
            | some unit =>
              if isHighSurrogate unit then
                match rest with
                | slash :: u :: e :: f :: g :: h :: rest' =>
                  match lowSurrogate? slash u e f g h with
                  | some low =>
                    readString whole ((String.utf8EncodeChar (pairChar unit low)).reverse ++ before)
                      rest'
                  | none => readString false before (slash :: u :: e :: f :: g :: h :: rest')
                | rest => readString false before rest
              else if isLowSurrogate unit then readString false before rest
              else
                readString whole ((String.utf8EncodeChar (Char.ofNat unit)).reverse ++ before) rest
          | _ => none
        else
          match shortEscape? letter with
          | none => none
          | some plain => readString whole (plain :: before) rest
    else if byte < 32 then none
    else readString whole (byte :: before) rest

/-- A decimal digit. -/
def isDigit (byte : UInt8) : Bool := 48 ≤ byte && byte ≤ 57

/-- The number that decimal digits spell. -/
def digitsValue (digits : Bytes) : Nat :=
  digits.foldl (fun n byte => n * 10 + (byte.toNat - 48)) 0

/-- What follows the fraction in front, if there is one and it is well formed. `none` is a point
without digits; the flag tells whether there was a fraction. -/
def skipFraction? : Bytes → Option (Bool × Bytes)
  | 46 :: rest =>
    if (rest.takeWhile isDigit).isEmpty then none else some (true, rest.dropWhile isDigit)
  | rest => some (false, rest)

/-- What follows the exponent in front, in the manner of `skipFraction?`. -/
def skipExponent? : Bytes → Option (Bool × Bytes)
  | [] => some (false, [])
  | byte :: rest =>
    if byte = 101 ∨ byte = 69 then
      let digits :=
        match rest with
        | 43 :: rest => rest
        | 45 :: rest => rest
        | rest => rest
      if (digits.takeWhile isDigit).isEmpty then none else some (true, digits.dropWhile isDigit)
    else some (false, byte :: rest)

/-- The integer that a number stands for, given its sign, its digits and whether a fraction or an
exponent followed them. The literal `-0` is no integer. -/
def integer? (negative : Bool) (digits : Bytes) (plain : Bool) : Option Int :=
  if !plain then none
  else if negative then
    if digitsValue digits = 0 then none else some (-(digitsValue digits : Int))
  else some (digitsValue digits)

/-- Reads a number from after its sign. -/
def readUnsigned (negative : Bool) (bytes : Bytes) : Option (Value × Bytes) :=
  let digits := bytes.takeWhile isDigit
  if digits.isEmpty ∨ (digits.head? = some 48 ∧ digits.length ≠ 1) then none
  else do
    let (fraction, rest) ← skipFraction? (bytes.dropWhile isDigit)
    let (exponent, rest) ← skipExponent? rest
    return (.number (integer? negative digits (!fraction && !exponent)), rest)

/-- Reads a value that is no array, object or string. -/
def readScalar : Bytes → Option (Value × Bytes)
  | 110 :: rest => (expect? [117, 108, 108] rest).map (Value.null, ·)
  | 116 :: rest => (expect? [114, 117, 101] rest).map (Value.bool true, ·)
  | 102 :: rest => (expect? [97, 108, 115, 101] rest).map (Value.bool false, ·)
  | 45 :: rest => readUnsigned true rest
  | rest => readUnsigned false rest

mutual

/-- Reads a value, white space in front included. -/
def readValue : (fuel : Nat) → Bytes → Option (Value × Bytes)
  | 0, _ => none
  | fuel + 1, bytes =>
    match skipSpace bytes with
    | 34 :: rest => (readString true [] rest).map fun (content, rest) => (.text content, rest)
    | 91 :: rest =>
      match skipSpace rest with
      | 93 :: rest => some (.array [], rest)
      | rest => readItems fuel [] rest
    | 123 :: rest =>
      match skipSpace rest with
      | 125 :: rest => some (.object [], rest)
      | rest => readMembers fuel [] rest
    | rest => readScalar rest

/-- Reads the rest of an array from before an item, given the earlier items in reverse. -/
def readItems : (fuel : Nat) → (before : List Value) → Bytes → Option (Value × Bytes)
  | 0, _, _ => none
  | fuel + 1, before, bytes =>
    match readValue fuel bytes with
    | none => none
    | some (item, rest) =>
      match skipSpace rest with
      | 44 :: rest => readItems fuel (item :: before) rest
      | 93 :: rest => some (.array (item :: before).reverse, rest)
      | _ => none

/-- Reads the rest of an object from before a key, given the earlier members in reverse. -/
def readMembers :
    (fuel : Nat) → (before : List (Option String × Value)) → Bytes → Option (Value × Bytes)
  | 0, _, _ => none
  | fuel + 1, before, bytes =>
    match skipSpace bytes with
    | 34 :: rest =>
      match readString true [] rest with
      | none => none
      | some (key, rest) =>
        match skipSpace rest with
        | 58 :: rest =>
          match readValue fuel rest with
          | none => none
          | some (value, rest) =>
            match skipSpace rest with
            | 44 :: rest => readMembers fuel ((key, value) :: before) rest
            | 125 :: rest => some (.object ((key, value) :: before).reverse, rest)
            | _ => none
        | _ => none
    | _ => none

end

/-- The value that a whole text spells; nothing but white space may follow it. -/
def parse? (text : Bytes) : Option Value :=
  match readValue (2 * text.length + 2) text with
  | some (value, rest) => if (skipSpace rest).isEmpty then some value else none
  | none => none

end ShardGossip.Json
