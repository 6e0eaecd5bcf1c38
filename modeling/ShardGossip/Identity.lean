import Std.Data.ExtTreeMap
import Std.Data.ExtTreeSet

/-!
# ShardGossip.Identity

The names of the network: nodes, shards, events and contracts.

Node ids are ordered by the code points of their text. Every member of a shard has to agree on this
order: it decides which side of a pair dials, and in which order members are placed, asked and
listed. Sets and maps over ids therefore iterate in it, and two of them are equal as soon as they
hold the same ids.
-/

namespace ShardGossip

/-- The identity of a node in the network. -/
structure NodeId where
  name : String
  deriving DecidableEq, Repr, Inhabited

namespace NodeId

instance : Ord NodeId := ⟨fun a b => compare a.name b.name⟩

instance : LT NodeId := ⟨fun a b => a.name < b.name⟩

instance (a b : NodeId) : Decidable (a < b) := inferInstanceAs (Decidable (a.name < b.name))

instance : ToString NodeId := ⟨NodeId.name⟩

theorem compare_def (a b : NodeId) : compare a b = compare a.name b.name := rfl

instance : Std.TransOrd NodeId where
  eq_swap := @fun a b => Std.OrientedOrd.eq_swap (a := a.name) (b := b.name)
  isLE_trans := @fun a b c => Std.TransOrd.isLE_trans (a := a.name) (b := b.name) (c := c.name)

instance : Std.LawfulEqOrd NodeId where
  compare_self := @fun a => Std.ReflOrd.compare_self (a := a.name)
  eq_of_compare h := by
    cases ‹NodeId›; cases ‹NodeId›
    simpa [compare_def] using h

end NodeId

/-- The identity of a shard, unique for the lifetime of a table. -/
structure ShardId where
  number : Nat
  deriving DecidableEq, Repr, Inhabited

namespace ShardId

instance : Ord ShardId := ⟨fun a b => compare a.number b.number⟩

instance : ToString ShardId := ⟨fun id => toString id.number⟩

theorem compare_def (a b : ShardId) : compare a b = compare a.number b.number := rfl

instance : Std.TransOrd ShardId where
  eq_swap := @fun a b => Std.OrientedOrd.eq_swap (a := a.number) (b := b.number)
  isLE_trans := @fun a b c =>
    Std.TransOrd.isLE_trans (a := a.number) (b := b.number) (c := c.number)

instance : Std.LawfulEqOrd ShardId where
  compare_self := @fun a => Std.ReflOrd.compare_self (a := a.number)
  eq_of_compare h := by
    cases ‹ShardId›; cases ‹ShardId›
    simpa [compare_def] using h

end ShardId

/-- The proof of an event: the text that identifies it. -/
abbrev Proof := String

/-- The identity of a contract. -/
abbrev ContractId := String

/-- A set of nodes. -/
abbrev NodeSet := Std.ExtTreeSet NodeId

/-- A value for each of some nodes. -/
abbrev NodeMap (α : Type) := Std.ExtTreeMap NodeId α

end ShardGossip
