import ShardGossip.Bytes
import ShardGossip.Json.Value

/-!
# ShardGossip.Json.Record

Reading records with named fields out of JSON values.

A record is written as an object or as an array. In an object the fields stand in any order, each at
most once, and members with other keys are ignored. In an array the fields stand in their declared
order; fields at the end may be cut off, and there may be no more items than fields.

`slots?` lines a value up with the declared field names; the functions on `Slot` then say what a
field does when it is not there.
-/

namespace ShardGossip.Json

/-- What a record holds for one declared field. -/
inductive Slot where
  | given (value : Value)
  /-- The object has no member of that name. -/
  | missing
  /-- The array ends before the field. -/
  | cut

/-- The slots of an array record. -/
def slotsOfItems? : (names : List String) → List Value → Option (List Slot)
  | [], [] => some []
  | [], _ :: _ => none
  | _ :: names, [] => (slotsOfItems? names []).map (.cut :: ·)
  | _ :: names, item :: items => (slotsOfItems? names items).map (.given item :: ·)

/-- The members of one key, in order. -/
def membersNamed (name : String) (members : List (Option String × Value)) : List Value :=
  (members.filter fun member => member.1 == some name).map (·.2)

/-- The slot of one field in an object: no key may be repeated. -/
def slotOfMembers? (members : List (Option String × Value)) (name : String) : Option Slot :=
  match membersNamed name members with
  | [] => some .missing
  | [value] => some (.given value)
  | _ :: _ :: _ => none

/-- Lines a value up with the declared field names. In an object every key must be a text. -/
def slots? (names : List String) : Value → Option (List Slot)
  | .array items => slotsOfItems? names items
  | .object members =>
    if members.all (·.1.isSome) then names.mapM (slotOfMembers? members) else none
  | _ => none

namespace Slot

/-- A field that must be written. -/
def required {α : Type} (read : Value → Option α) : Slot → Option α
  | .given value => read value
  | _ => none

/-- A field with a value of its own when it is not written. -/
def orElse {α : Type} (read : Value → Option α) (default : α) : Slot → Option α
  | .given value => read value
  | _ => some default

end Slot

/-- `null`, or what `read` makes of the value. -/
def nullable? {α : Type} (read : Value → Option α) : Value → Option (Option α)
  | .null => some none
  | value => (read value).map some

/-- A field that an object may leave out but an array may not. -/
def Slot.nullable {α : Type} (read : Value → Option α) : Slot → Option (Option α)
  | .given value => nullable? read value
  | .missing => some none
  | .cut => none

namespace Value

/-- The text of a string. -/
def asText? : Value → Option String
  | .text content => content
  | _ => none

/-- An integer between two bounds. -/
def asIntBetween? (low high : Int) : Value → Option Int
  | .number (some i) => if low ≤ i ∧ i ≤ high then some i else none
  | _ => none

/-- A natural number below `2 ^ bits`. -/
def asNat? (bits : Nat) (v : Value) : Option Nat :=
  (v.asIntBetween? 0 (Nat.pow 2 bits - 1)).map Int.toNat

/-- An integer of 64 bits, sign included. -/
def asInt64? : Value → Option Int :=
  asIntBetween? (-(Nat.pow 2 63)) (Nat.pow 2 63 - 1)

/-- The items of an array, each read by `read`. -/
def asList? {α : Type} (read : Value → Option α) : Value → Option (List α)
  | .array items => items.mapM read
  | _ => none

/-- The bytes of an array of numbers. -/
def asBytes? : Value → Option Bytes :=
  asList? fun v => (v.asNat? 8).map UInt8.ofNat

/-- The members of an object with texts as keys, in order and each read by `read`. -/
def asMembers? {α : Type} (read : Value → Option α) : Value → Option (List (String × α))
  | .object members => members.mapM fun (key, value) => do return (← key, ← read value)
  | _ => none

/-- A byte string as an array of numbers. -/
def ofBytes (bytes : Bytes) : Value :=
  .array (bytes.map fun byte => .ofNat byte.toNat)

end Value

end ShardGossip.Json
