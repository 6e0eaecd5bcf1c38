import ShardGossip.Bytes

/-!
# ShardGossip.Bytes.Utf8

UTF-8 text in byte strings.

`Utf8.encode` writes a string and `Utf8.decode` reads one, refusing every sequence that is not
well formed: overlong forms, surrogates, code points past U+10FFFF and stray continuation bytes. A
refusal names the index of the first byte of the offending sequence, and how many bytes of it can be
told to be wrong without reading on, if any.
-/

namespace ShardGossip.Utf8

/-- The UTF-8 bytes of a string. -/
def encode (text : String) : Bytes :=
  text.toList.flatMap String.utf8EncodeChar

/-- Why a byte string is not UTF-8 text. -/
inductive Fault where
  /-- `length` bytes from `index` begin no character. -/
  | invalid (length index : Nat)
  /-- The text ends inside the character that starts at `index`. -/
  | incomplete (index : Nat)
  deriving DecidableEq, Repr

/-- The fault in words. -/
def Fault.message : Fault → String
  | .invalid length index => s!"invalid utf-8 sequence of {length} bytes from index {index}"
  | .incomplete index => s!"incomplete utf-8 byte sequence from index {index}"

/-- A byte of the form `10xxxxxx`. -/
def isContinuation (byte : UInt8) : Bool :=
  0x80 ≤ byte && byte ≤ 0xBF

/-- Whether `second` may follow the first byte `first` of a three-byte character. -/
def mayFollowThree (first second : UInt8) : Bool :=
  if first = 0xE0 then 0xA0 ≤ second && second ≤ 0xBF
  else if first = 0xED then 0x80 ≤ second && second ≤ 0x9F
  else isContinuation second

/-- Whether `second` may follow the first byte `first` of a four-byte character. -/
def mayFollowFour (first second : UInt8) : Bool :=
  if first = 0xF0 then 0x90 ≤ second && second ≤ 0xBF
  else if first = 0xF4 then 0x80 ≤ second && second ≤ 0x8F
  else isContinuation second

/-- The character of a two-byte sequence. -/
def char2 (a b : UInt8) : Char :=
  Char.ofNat ((a.toNat - 0xC0) * 64 + (b.toNat - 0x80))

/-- The character of a three-byte sequence. -/
def char3 (a b c : UInt8) : Char :=
  Char.ofNat ((a.toNat - 0xE0) * 4096 + (b.toNat - 0x80) * 64 + (c.toNat - 0x80))

/-- The character of a four-byte sequence. -/
def char4 (a b c d : UInt8) : Char :=
  Char.ofNat ((a.toNat - 0xF0) * 262144 + (b.toNat - 0x80) * 4096 + (c.toNat - 0x80) * 64
    + (d.toNat - 0x80))

/-- Reads the characters from `index` on, given the earlier ones in reverse. -/
def decodeFrom (index : Nat) (before : List Char) : Bytes → Except Fault (List Char)
  | [] => .ok before.reverse
  | a :: rest =>
    if a < 0x80 then
      decodeFrom (index + 1) (Char.ofNat a.toNat :: before) rest
    else if 0xC2 ≤ a ∧ a ≤ 0xDF then
      match rest with
      | [] => .error (.incomplete index)
      | b :: rest =>
        if isContinuation b then decodeFrom (index + 2) (char2 a b :: before) rest
        else .error (.invalid 1 index)
    else if 0xE0 ≤ a ∧ a ≤ 0xEF then
      match rest with
      | [] => .error (.incomplete index)
      | b :: rest =>
        if !mayFollowThree a b then .error (.invalid 1 index)
        else
          match rest with
          | [] => .error (.incomplete index)
          | c :: rest =>
            if isContinuation c then decodeFrom (index + 3) (char3 a b c :: before) rest
            else .error (.invalid 2 index)
    else if 0xF0 ≤ a ∧ a ≤ 0xF4 then
      match rest with
      | [] => .error (.incomplete index)
      | b :: rest =>
        if !mayFollowFour a b then .error (.invalid 1 index)
        else
          match rest with
          | [] => .error (.incomplete index)
          | c :: rest =>
            if !isContinuation c then .error (.invalid 2 index)
            else
              match rest with
              | [] => .error (.incomplete index)
              | d :: rest =>
                if isContinuation d then decodeFrom (index + 4) (char4 a b c d :: before) rest
                else .error (.invalid 3 index)
    else .error (.invalid 1 index)

/-- The text a byte string holds. -/
def decode (bytes : Bytes) : Except Fault String :=
  (decodeFrom 0 [] bytes).map String.ofList

/-- The text a byte string holds, without the reason when there is none. -/
def decode? (bytes : Bytes) : Option String :=
  (decode bytes).toOption

end ShardGossip.Utf8
