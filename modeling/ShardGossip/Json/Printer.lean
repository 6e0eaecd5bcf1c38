import ShardGossip.Json.Value

/-!
# ShardGossip.Json.Printer

The compact text of a JSON value: no blanks, members in their order, and inside a string a backslash
only before a quote, a backslash or a control character. Controls with a short form take it; the
others are written as four lowercase hexadecimal digits. Everything else stands for itself.
-/

namespace ShardGossip.Json

/-- A character as it stands inside a JSON string. -/
def escape (c : Char) : List Char :=
  if c = '"' then ['\\', '"']
  else if c = '\\' then ['\\', '\\']
  else if c = '\x08' then ['\\', 'b']
  else if c = '\t' then ['\\', 't']
  else if c = '\n' then ['\\', 'n']
  else if c = '\x0c' then ['\\', 'f']
  else if c = '\r' then ['\\', 'r']
  else if c.toNat < 0x20 then
    ['\\', 'u', '0', '0', Nat.digitChar (c.toNat / 16), Nat.digitChar (c.toNat % 16)]
  else [c]

/-- A text as a JSON string. -/
def renderText (content : String) : List Char :=
  '"' :: content.toList.flatMap escape ++ ['"']

/-- An integer in decimal digits. -/
def renderInt : Int → List Char
  | .ofNat n => Nat.toDigits 10 n
  | .negSucc n => '-' :: Nat.toDigits 10 (n + 1)

mutual

/-- The compact text of a value. A value without content is written as `null`. -/
def render : Value → List Char
  | .null => "null".toList
  | .bool true => "true".toList
  | .bool false => "false".toList
  | .number none => "null".toList
  | .number (some i) => renderInt i
  | .text none => "null".toList
  | .text (some s) => renderText s
  | .array [] => ['[', ']']
  | .array (first :: rest) => '[' :: render first ++ renderItems rest
  | .object [] => ['{', '}']
  | .object ((key, value) :: rest) =>
    '{' :: renderText (key.getD "") ++ ':' :: render value ++ renderMembers rest

/-- The items of an array after the first, up to the closing bracket. -/
def renderItems : List Value → List Char
  | [] => [']']
  | item :: rest => ',' :: render item ++ renderItems rest

/-- The members of an object after the first, up to the closing brace. -/
def renderMembers : List (Option String × Value) → List Char
  | [] => ['}']
  | (key, value) :: rest =>
    ',' :: renderText (key.getD "") ++ ':' :: render value ++ renderMembers rest

end

/-- The compact text of a value. -/
def Value.compact (v : Value) : String :=
  String.ofList (render v)

end ShardGossip.Json
