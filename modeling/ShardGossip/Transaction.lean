import ShardGossip.Identity
import ShardGossip.Json.Record

/-!
# ShardGossip.Transaction

Transactions: the units of work that callers submit.

A transaction says what it is (`kind`), carries bytes that only the application understands, and may
be addressed to a contract. Two kinds mean something to the network itself: a *response* reaches the
pipeline even if the shard that holds it is dissolved, and a *contract assignment* places its
contract in the shard table once it is committed.
-/

namespace ShardGossip

/-- A unit of work. -/
structure Transaction where
  kind : String
  payload : Bytes
  contract : Option ContractId
  deriving DecidableEq, Repr, Inhabited

namespace Transaction

/-- The kind of responses. -/
def responseKind : String := "response"

/-- The kind of contract assignments. -/
def assignmentKind : String := "assign-contract"

/-- A request to place a contract in the shard table. -/
def assignment (contract : ContractId) : Transaction :=
  ⟨assignmentKind, [], some contract⟩

/-- A reply that must reach the pipeline. -/
def isResponse (t : Transaction) : Bool :=
  t.kind == responseKind

/-- A request that the shard table serves. -/
def isAssignment (t : Transaction) : Bool :=
  t.kind == assignmentKind && t.contract.isSome

/-- The JSON form: an unset contract is left out. -/
def toJson (t : Transaction) : Json.Value :=
  .record <|
    [("kind", .ofText t.kind), ("payload", .ofBytes t.payload)]
      ++ (t.contract.map fun contract => ("contract", Json.Value.ofText contract)).toList

/-- The fields of the JSON form, in order. -/
def fieldNames : List String := ["kind", "payload", "contract"]

/-- Reads the JSON form; an unset contract may be left out or `null`. -/
def ofJson? (v : Json.Value) : Option Transaction := do
  let [kind, payload, contract] ← Json.slots? fieldNames v | none
  return {
    kind := ← kind.required (·.asText?)
    payload := ← payload.required (·.asBytes?)
    contract := ← contract.orElse (Json.nullable? (·.asText?)) none }

end Transaction

end ShardGossip
