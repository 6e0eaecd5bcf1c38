import ShardGossip.Json.Printer

/-!
# ShardGossip.Json.Pretty

The text of a JSON value for human readers: every item and every member on a line of its own, two
blanks further in than what it belongs to. What is empty stays on its line.
-/

namespace ShardGossip.Json

/-- The start of a line at a depth. -/
def newline (depth : Nat) : List Char :=
  '\n' :: List.replicate (2 * depth) ' '

mutual

/-- The text of a value that stands at a depth. -/
def indent (depth : Nat) : Value → List Char
  | .array (first :: rest) =>
    '[' :: newline (depth + 1) ++ indent (depth + 1) first ++ indentItems depth rest
  | .object ((key, value) :: rest) =>
    '{' :: newline (depth + 1) ++ renderText (key.getD "") ++ ':' :: ' ' :: indent (depth + 1) value
      ++ indentMembers depth rest
  | value => render value

/-- The items of an array after the first, up to the closing bracket. -/
def indentItems (depth : Nat) : List Value → List Char
  | [] => newline depth ++ [']']
  | item :: rest =>
    ',' :: newline (depth + 1) ++ indent (depth + 1) item ++ indentItems depth rest

/-- The members of an object after the first, up to the closing brace. -/
def indentMembers (depth : Nat) : List (Option String × Value) → List Char
  | [] => newline depth ++ ['}']
  | (key, value) :: rest =>
    ',' :: newline (depth + 1) ++ renderText (key.getD "") ++ ':' :: ' ' :: indent (depth + 1) value
      ++ indentMembers depth rest

end

/-- The text of a value for human readers. -/
def Value.pretty (v : Value) : String :=
  String.ofList (indent 0 v)

end ShardGossip.Json
