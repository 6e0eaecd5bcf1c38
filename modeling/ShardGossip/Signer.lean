import ShardGossip.Bytes.Utf8
import ShardGossip.Identity

/-!
# ShardGossip.Signer

What a member signs with. The consensus rules only ever produce signatures; checking them is the
business of whoever receives them.
-/

namespace ShardGossip

/-- A way to sign messages. -/
structure Signer where
  sign : Bytes → Bytes

/-- Signs by putting the signer's name and a colon in front of the message, so that a trace shows
who signed what. -/
def Signer.labelled (id : NodeId) : Signer :=
  ⟨fun message => Utf8.encode id.name ++ Utf8.encode ":" ++ message⟩

end ShardGossip
