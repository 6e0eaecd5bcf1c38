import ShardGossip.Frame
import ShardGossip.Outbox
import ShardGossip.Packet.Wire
import ShardGossip.Text.Quoted

/-!
# ShardGossip.PeerSocket

A connection to another node, as its near end sees it.

The connection is a pair of byte streams. What the far end has written and the near end has not read
is `incoming`; what the near end has written and the far end has not taken is `outgoing`.

* A data frame is acknowledged as soon as it is read, whether its packet can be understood or not,
  so that the far end goes on to its next frame. The acknowledgement does not go through the outbox:
  two ends that wait for each other would never drain otherwise.
* A packet that was read waits in `inbox` for the handler, in the order of reading.
* A frame that is to be written waits in `writes`. Once the socket is closed it is dropped.
* The end of the incoming stream, a frame over the limit and a failed acknowledgement end the
  reading and close the socket.
-/

namespace ShardGossip

/-- A connection to another node. -/
structure PeerSocket where
  id : NodeId
  limit : Nat
  outbox : Outbox
  writes : List Bytes
  incoming : Bytes
  /-- The bytes that are written and not taken by the far end. -/
  outgoing : Bytes
  inbox : List Packet
  reading : Bool
  closed : Bool
  /-- Whether the far end sees the end of the stream after `outgoing`. -/
  finished : Bool
  hungUp : Bool
  deriving DecidableEq

namespace PeerSocket

/-- A connection over which nothing has gone yet and that nobody reads. -/
def fresh (id : NodeId) (limit : Nat) : PeerSocket where
  id := id
  limit := limit
  outbox := ∅
  writes := []
  incoming := []
  outgoing := []
  inbox := []
  reading := false
  closed := false
  finished := false
  hungUp := false

instance : Inhabited PeerSocket := ⟨fresh default 0⟩

/-! ### Sending -/

/-- Keeps what an operation on the outbox wants to be written. -/
def withOutbox (s : PeerSocket) (change : Option Bytes × Outbox) : PeerSocket :=
  { s with outbox := change.2, writes := s.writes ++ change.1.toList }

/-- Queues a frame. -/
def send (s : PeerSocket) (frame : Bytes) : PeerSocket :=
  s.withOutbox (s.outbox.push frame)

/-- Queues a packet, if it can be encoded. -/
def sendPacket (s : PeerSocket) (packet : Packet) : Except Packet.EncodeError PeerSocket :=
  packet.encode.map s.send

/-- The far end has acknowledged the head of the outbox. -/
def acknowledged (s : PeerSocket) : PeerSocket :=
  s.withOutbox s.outbox.acknowledge

/-- Closes the socket for sending. The reading ends when it finds that out. -/
def close (s : PeerSocket) : PeerSocket :=
  { s with closed := true }

/-- Writes a frame, unless it is over the limit or the far end has gone. -/
def transmit? (s : PeerSocket) (frame : Bytes) : Option PeerSocket :=
  if s.hungUp then none
  else
    match Frame.encode s.limit frame with
    | .ok bytes => some { s with outgoing := s.outgoing ++ bytes }
    | .error _ => none

/-- Does the first of the writes that are due. -/
def write (s : PeerSocket) : PeerSocket :=
  match s.writes with
  | [] => s
  | frame :: rest =>
    let s := { s with writes := rest }
    if s.closed then s
    else (s.transmit? frame).getD { s with outbox := s.outbox.writeFailed }

/-- Does every write that is due. -/
def flush (s : PeerSocket) : PeerSocket :=
  Nat.repeat write s.writes.length s

/-! ### Reading -/

/-- Starts the reading. -/
def startReading (s : PeerSocket) : PeerSocket :=
  { s with reading := true }

/-- Ends the reading, and with it the connection. -/
def stopReading (s : PeerSocket) : PeerSocket :=
  { s with reading := false, closed := true, finished := true }

/-- Takes the payload of a frame that was read. -/
def receive (s : PeerSocket) (payload : Bytes) : PeerSocket :=
  match Packet.decode payload with
  | .ok .received => s.acknowledged
  | .ok packet =>
    match s.transmit? [Packet.received.tag] with
    | some s => { s with inbox := s.inbox ++ [packet] }
    | none => s.stopReading
  | .error _ => (s.transmit? [Packet.received.tag]).getD s.stopReading

/-- Takes payloads for as long as the reading lasts. -/
def receiveAll (s : PeerSocket) (payloads : List Bytes) : PeerSocket :=
  payloads.foldl (fun s payload => if s.reading then s.receive payload else s) s

/-- Reads everything that has arrived, whether the socket was closed or not. -/
def readOn (s : PeerSocket) : PeerSocket :=
  if !s.reading then s
  else
    let (payloads, remainder) := Frame.split s.limit s.incoming
    match remainder with
    | .refused _ _ => ({ s with incoming := [] }.receiveAll payloads).stopReading
    | .pending rest =>
      let s := { s with incoming := rest }.receiveAll payloads
      if s.hungUp then s.stopReading else s

/-- Goes on with the reading, or ends it if the socket was closed. A frame that has arrived by then
may still be read first: neither is preferred to the other, and `readOn` is what happens then. -/
def read (s : PeerSocket) : PeerSocket :=
  if s.reading && s.closed then s.stopReading else s.readOn

/-- Everything that happens until nothing is due any more. -/
def settle (s : PeerSocket) : PeerSocket :=
  s.flush.read.flush

/-- Takes the packets that are to be handled. -/
def takeInbox (s : PeerSocket) : List Packet × PeerSocket :=
  (s.inbox, { s with inbox := [] })

/-- How the socket is shown. -/
def describe (s : PeerSocket) : String :=
  "PeerSocket \x7b id: NodeId(" ++ Text.quoted s.id.name ++ "), closed: " ++ toString s.closed
    ++ " \x7d"

end PeerSocket

end ShardGossip
