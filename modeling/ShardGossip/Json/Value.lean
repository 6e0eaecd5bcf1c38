/-!
# ShardGossip.Json.Value

JSON values as far as a reader of records has to tell them apart.

Two things that JSON syntax allows have no place in any record: a string with a lone surrogate or
with bytes that are no text, and a number that is not written as an integer. Both are kept as
values without content, so that a field nobody asks for may still hold them.
-/

namespace ShardGossip.Json

/-- A JSON value. -/
inductive Value where
  | null
  | bool (b : Bool)
  /-- A number: its value if it is written as an integer (and is not `-0`). -/
  | number (integer : Option Int)
  /-- A string: its text if it is one. -/
  | text (content : Option String)
  | array (items : List Value)
  /-- An object: its members in the order they are written, repeated keys included. -/
  | object (members : List (Option String × Value))
  deriving Repr, Inhabited

namespace Value

/-- The value of a natural number. -/
def ofNat (n : Nat) : Value := .number (some n)

/-- The value of an integer. -/
def ofInt (i : Int) : Value := .number (some i)

/-- The value of a text. -/
def ofText (s : String) : Value := .text (some s)

/-- The value of an optional text: `null` when there is none. -/
def ofText? (s : Option String) : Value := s.elim .null ofText

/-- An object whose keys are texts. -/
def record (members : List (String × Value)) : Value :=
  .object (members.map fun (key, value) => (some key, value))

end Value

end ShardGossip.Json
