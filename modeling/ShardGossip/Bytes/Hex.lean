import ShardGossip.Bytes

/-!
# ShardGossip.Bytes.Hex

Hexadecimal text of byte strings: two digits a byte, high digit first.

Writing uses lowercase digits; reading takes both cases. A text is refused for its odd length before
any of its characters is looked at, and otherwise for its first character that is no digit.
-/

namespace ShardGossip.Hex

/-- The lowercase digit for a number below sixteen. -/
def digit (n : UInt8) : Char :=
  if n < 10 then Char.ofNat (48 + n.toNat) else Char.ofNat (87 + n.toNat)

/-- Lowercase hexadecimal text of a byte string. -/
def encode (bytes : Bytes) : String :=
  String.ofList (bytes.flatMap fun byte => [digit (byte / 16), digit (byte % 16)])

/-- Why a text is not the hexadecimal text of a byte string. -/
inductive Fault where
  /-- The text has an odd number of bytes. -/
  | oddLength
  /-- The byte at `position` is no hexadecimal digit. -/
  | notADigit (byte : UInt8) (position : Nat)
  deriving DecidableEq, Repr

/-- The value of a digit, given as its character code. -/
def value? (byte : UInt8) : Option UInt8 :=
  if 48 ≤ byte ∧ byte ≤ 57 then some (byte - 48)
  else if 97 ≤ byte ∧ byte ≤ 102 then some (byte - 87)
  else if 65 ≤ byte ∧ byte ≤ 70 then some (byte - 55)
  else none

/-- Reads pairs of digits from `position` on, given the bytes read earlier in reverse. -/
def decodePairs (position : Nat) (before : Bytes) : Bytes → Except Fault Bytes
  | [] => .ok before.reverse
  | [_] => .error .oddLength
  | high :: low :: rest =>
    match value? high, value? low with
    | none, _ => .error (.notADigit high position)
    | some _, none => .error (.notADigit low (position + 1))
    | some h, some l => decodePairs (position + 2) ((h * 16 + l) :: before) rest

/-- The byte string that a text of hexadecimal digits, given as its bytes, stands for. -/
def decode (text : Bytes) : Except Fault Bytes :=
  if text.length % 2 = 0 then decodePairs 0 [] text else .error .oddLength

end ShardGossip.Hex
