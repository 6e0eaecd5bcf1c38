import ShardGossip.Frame
import ShardGossip.Packet.Wire

/-!
# ShardGossip.Handshake

The start of a connection.

The node that dials sends a hello with its id and the shard that it calls for. The node that is
dialed waits for it; anything else ends the connection.
-/

namespace ShardGossip

/-- Why a connection was not accepted. -/
inductive HandshakeError where
  /-- The dialer went away before it said anything. -/
  | closed
  /-- The dialer did not finish its hello in time. -/
  | timeout
  /-- The first packet is of another kind. -/
  | unexpectedPacket (name : String)
  | frame (error : Frame.Error)
  /-- The first frame holds no packet. -/
  | packet (error : Packet.DecodeError)
  deriving DecidableEq

/-- The error in words. -/
def HandshakeError.message : HandshakeError → String
  | closed => "connection closed before hello"
  | timeout => "timed out waiting for hello"
  | unexpectedPacket name => s!"expected hello, got {name}"
  | frame error => error.message
  | packet error => error.message

namespace Handshake

/-- Who is calling, for which shard, and what follows the hello. `ended` tells whether the dialer
has stopped sending; if not, an unfinished hello is waited for in vain. -/
def accept (limit : Nat) (arrived : Bytes) (ended : Bool) :
    Except HandshakeError (NodeId × ShardId × Bytes) :=
  match (if ended then Frame.last else Frame.next) limit arrived with
  | .error error => .error (.frame error)
  | .ok none => .error (if ended then .closed else .timeout)
  | .ok (some (payload, rest)) =>
    match Packet.decode payload with
    | .error error => .error (.packet error)
    | .ok (.hello node shard) => .ok (node, shard, rest)
    | .ok packet => .error (.unexpectedPacket packet.name)

/-- What a node sends first on a connection that it opened. -/
def hello (node : NodeId) (shard : ShardId) : Except Packet.EncodeError Bytes :=
  (Packet.hello node shard).encode

end Handshake

end ShardGossip
