import ShardGossip.Text.Unprinted

/-!
# ShardGossip.Text.Quoted

Texts and characters between quotes, with every character readable: a quote of the same kind and a
backslash get a backslash in front, the four common controls have letters of their own, and any
other character that cannot be shown is written as its code point in braces.
-/

namespace ShardGossip.Text

/-- The digits of a number in base sixteen, lowercase, without leading zeros. -/
def hexDigits (n : Nat) : String :=
  String.ofList (Nat.toDigits 16 n)

/-- A character as it stands between two quotes `quote`. -/
def escape (quote c : Char) : String :=
  if c = '\x00' then "\\0"
  else if c = '\t' then "\\t"
  else if c = '\r' then "\\r"
  else if c = '\n' then "\\n"
  else if c = '\\' || c = quote then String.ofList ['\\', c]
  else if isUnprinted c then "\\u\x7b" ++ hexDigits c.toNat ++ "\x7d"
  else String.singleton c

/-- A text between double quotes. -/
def quoted (text : String) : String :=
  "\"" ++ String.join (text.toList.map (escape '"')) ++ "\""

/-- A character between single quotes. -/
def quotedChar (c : Char) : String :=
  "'" ++ escape '\'' c ++ "'"

end ShardGossip.Text
