import ShardGossip.Bytes.Utf8
import ShardGossip.Event
import ShardGossip.Json.Printer
import ShardGossip.Json.Reader

/-!
# ShardGossip.Event.Json

The JSON form of events, and the JSON texts that packets carry.

Transactions, proof and origin have to be written; every other field is empty or zero when it is
left out. Sets are written as sorted arrays and maps as objects sorted by key. A set may be read
from an array in any order and with repetitions; of a key that a map repeats, the last value counts.
-/

namespace ShardGossip

namespace NodeId

/-- The JSON form: the name. -/
def toJson (id : NodeId) : Json.Value := .ofText id.name

/-- Reads the JSON form. -/
def ofJson? (v : Json.Value) : Option NodeId := v.asText?.map NodeId.mk

end NodeId

namespace Event

/-- The JSON form. -/
def toJson (e : Event) : Json.Value :=
  .record [
    ("transactions", .array (e.transactions.map Transaction.toJson)),
    ("proof", .ofText e.proof),
    ("origin", e.origin.toJson),
    ("timestamp", .ofNat e.timestamp),
    ("signed_update", .ofBytes e.signedUpdate),
    ("backed_responses", .array (e.backedResponses.toList.map NodeId.toJson)),
    ("backed_proofs",
      .record (e.backedProofs.toList.map fun (voter, text) => (voter.name, .ofText text)))]

/-- The fields of the JSON form, in order. -/
def fieldNames : List String :=
  ["transactions", "proof", "origin", "timestamp", "signed_update", "backed_responses",
    "backed_proofs"]

/-- Reads a set of nodes. -/
def nodeSetOfJson? (v : Json.Value) : Option NodeSet :=
  (v.asList? NodeId.ofJson?).map fun ids => ids.foldl (fun set id => set.insert id) ∅

/-- Reads a map from nodes to texts. -/
def nodeMapOfJson? (v : Json.Value) : Option (NodeMap String) :=
  (v.asMembers? (·.asText?)).map fun members =>
    members.foldl (fun map (id, text) => map.insert ⟨id⟩ text) ∅

/-- Reads the JSON form. -/
def ofJson? (v : Json.Value) : Option Event := do
  let [transactions, proof, origin, timestamp, signedUpdate, backedResponses, backedProofs] ←
    Json.slots? fieldNames v | none
  return {
    transactions := ← transactions.required (·.asList? Transaction.ofJson?)
    proof := ← proof.required (·.asText?)
    origin := ← origin.required NodeId.ofJson?
    timestamp := ← timestamp.orElse (·.asNat? 64) 0
    signedUpdate := ← signedUpdate.orElse (·.asBytes?) []
    backedResponses := ← backedResponses.orElse nodeSetOfJson? ∅
    backedProofs := ← backedProofs.orElse nodeMapOfJson? ∅ }

/-- The JSON text of an event, as bytes. -/
def encode (e : Event) : Bytes :=
  Utf8.encode e.toJson.compact

/-- Reads an event from its JSON text. -/
def decode? (text : Bytes) : Option Event :=
  Json.parse? text >>= ofJson?

/-- The JSON text of a list of events, as bytes. -/
def encodeList (events : List Event) : Bytes :=
  Utf8.encode (Json.Value.array (events.map toJson)).compact

/-- Reads a list of events from its JSON text. -/
def decodeList? (text : Bytes) : Option (List Event) :=
  Json.parse? text >>= fun v => v.asList? ofJson?

end Event

namespace Transaction

/-- The JSON text of a list of transactions, as bytes. -/
def encodeList (transactions : List Transaction) : Bytes :=
  Utf8.encode (Json.Value.array (transactions.map toJson)).compact

/-- Reads a list of transactions from its JSON text. -/
def decodeList? (text : Bytes) : Option (List Transaction) :=
  Json.parse? text >>= fun v => v.asList? ofJson?

end Transaction

end ShardGossip
