import ShardGossip.PeerSocket

/-!
# ShardGossip.PeerSocket.FarEnd

The far end of a connection, played by a script.

The far end writes bytes, takes what the near end has written, and hangs up. What it takes is told
apart into acknowledgements, which have no content, and the payloads of all other frames.
-/

namespace ShardGossip

/-- What the far end found since it last looked. -/
structure Receipt where
  acknowledgements : Nat
  payloads : List Bytes
  ended : Bool
  deriving DecidableEq, Repr

namespace PeerSocket

/-- The largest payload that a length can announce. -/
def farLimit : Nat := Nat.pow 256 Frame.prefixLength - 1

/-- Bytes arrive from the far end. -/
def arrive (s : PeerSocket) (bytes : Bytes) : PeerSocket :=
  { s with incoming := s.incoming ++ bytes }

/-- The far end goes away. -/
def hangUp (s : PeerSocket) : PeerSocket :=
  { s with hungUp := true }

/-- The far end takes everything that was written to it. -/
def collect (s : PeerSocket) : Receipt × PeerSocket :=
  let (payloads, _) := Frame.split farLimit s.outgoing
  let (acknowledgements, others) := payloads.partition (· = [Packet.received.tag])
  (⟨acknowledgements.length, others, s.finished⟩, { s with outgoing := [] })

/-- The frame of a payload as the far end writes it. -/
def farFrame (payload : Bytes) : Bytes :=
  Bytes.ofNat Frame.prefixLength payload.length ++ payload

end PeerSocket

end ShardGossip
