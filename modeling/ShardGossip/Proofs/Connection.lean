import ShardGossip.PeerSocket.FarEnd
import ShardGossip.Proofs.Framing
import ShardGossip.Proofs.PacketRoundTrip

/-!
# ShardGossip.Proofs.Connection

**A connection after the handshake**: two sockets that read each other, and the bytes between them.

What an end writes stands in its `outgoing` until some of it arrives at the other end (`carry`), in
order and in pieces of any size. At any time either end may be given a packet to send, do a write
that is due, read what has arrived, hand a packet to its handler, be closed, or find that the other
one has gone; an end that was closed may read on for a while or find that out at once. `Reached` are
the states that this can lead to. An end keeps a record of the packets it was given, of those it
handed on, and of how many data frames it has written.
-/

namespace ShardGossip

/-! ### Packets as payloads -/

namespace Packet

/-- The wire form of a packet, however long its fields are. -/
def wire (p : Packet) : Bytes := p.tag :: p.layout

/-- What a socket is asked to send: no acknowledgement of its own making, and with numbers of the
width in which they are sent.

The length of a payload is announced in four bytes. A limit of 2³² or more lets a payload pass whose
length does not fit, and the far end then loses its place in the stream; `announced` says that no
such payload is sent. Under any lower limit it says nothing. -/
structure Sendable (limit : Nat) (p : Packet) : Prop where
  data : p ≠ received
  inRange : p.InRange
  announced : p.wire.length ≤ limit → p.wire.length < Nat.pow 2 32

instance (p : Packet) : Decidable p.InRange :=
  inferInstanceAs (Decidable (∀ n ∈ p.numbers, n < Nat.pow 2 64))

instance (limit : Nat) (p : Packet) : Decidable (p.Sendable limit) :=
  decidable_of_iff
    (p ≠ received ∧ p.InRange ∧ (p.wire.length ≤ limit → p.wire.length < Nat.pow 2 32))
    ⟨fun ⟨hd, hr, ha⟩ => ⟨hd, hr, ha⟩, fun ⟨hd, hr, ha⟩ => ⟨hd, hr, ha⟩⟩

theorem encode_eq_wire {p : Packet} {bytes : Bytes} :
    p.encode = .ok bytes ↔ p.Fits ∧ bytes = p.wire :=
  encode_eq_ok

end Packet

namespace PeerSocket

/-- The payload of an acknowledgement. -/
def receipt : Bytes := [Packet.received.tag]

theorem wire_ne_receipt {p : Packet} (h : p ≠ .received) : p.wire ≠ receipt := by
  intro he
  have ht : p.tag = Packet.received.tag := (List.cons_eq_cons.mp he).1
  cases p with
  | received => exact h rfl
  | _ => simp [Packet.tag] at ht

/-! ### What a socket does -/

variable {s : PeerSocket} {frame payload : Bytes} {packet : Packet}

/-- A write fails if the other end has gone or the frame is over the limit. -/
theorem transmit?_eq (s : PeerSocket) (frame : Bytes) :
    s.transmit? frame =
      if s.hungUp ∨ s.limit < frame.length then none
      else some { s with outgoing := s.outgoing ++ Frame.layout frame } := by
  unfold transmit?
  by_cases hu : s.hungUp
  · rw [if_pos hu, if_pos (Or.inl hu)]
  · rw [if_neg hu]
    by_cases hl : s.limit < frame.length
    · rw [if_pos (Or.inr hl), Frame.encode, if_pos hl]
    · rw [if_neg (by simp [hu, hl]), Frame.encode, if_neg hl]
      rfl

theorem receive_receipt (s : PeerSocket) : s.receive receipt = s.acknowledged := rfl

/-- A data frame is acknowledged before its packet waits for the handler. -/
theorem receive_packet (h : Packet.decode payload = .ok packet) (hd : packet ≠ .received) :
    s.receive payload =
      if s.hungUp ∨ s.limit < receipt.length then s.stopReading
      else { s with
        outgoing := s.outgoing ++ Frame.layout receipt
        inbox := s.inbox ++ [packet] } := by
  have ht : s.transmit? [Packet.received.tag] = _ := s.transmit?_eq receipt
  unfold receive
  rw [h]
  by_cases hc : s.hungUp ∨ s.limit < receipt.length
  · rw [if_pos hc] at ht ⊢
    cases packet <;> first | exact absurd rfl hd | simp only [ht]
  · rw [if_neg hc] at ht ⊢
    cases packet <;> first | exact absurd rfl hd | simp only [ht]

theorem incoming_transmit? {s' : PeerSocket} (h : s.transmit? frame = some s') :
    s'.incoming = s.incoming := by
  rw [transmit?_eq] at h
  split at h
  · cases h
  · cases h
    rfl

@[simp] theorem incoming_receive (s : PeerSocket) (payload : Bytes) :
    (s.receive payload).incoming = s.incoming := by
  unfold receive
  split
  · rfl
  · split
    · next ht => exact (incoming_transmit? ht :)
    · rfl
  · cases ht : s.transmit? [Packet.received.tag] with
    | none => rfl
    | some s' => exact incoming_transmit? ht

theorem receiveAll_cons (s : PeerSocket) (payload : Bytes) (rest : List Bytes) :
    s.receiveAll (payload :: rest) =
      (if s.reading then s.receive payload else s).receiveAll rest := rfl

@[simp] theorem incoming_receiveAll (s : PeerSocket) (payloads : List Bytes) :
    (s.receiveAll payloads).incoming = s.incoming := by
  induction payloads generalizing s with
  | nil => rfl
  | cons payload rest ih =>
      rw [receiveAll_cons, ih]
      split
      · exact incoming_receive s payload
      · rfl

/-- Reading takes the whole frames that have arrived, and may end with that. -/
theorem readOn_cases (s : PeerSocket) :
    s.readOn = s ∨
    s.reading ∧ ∃ rest,
      (s.readOn = ({ s with incoming := rest }.receiveAll
          (Frame.split s.limit s.incoming).1).stopReading ∨
        (Frame.split s.limit s.incoming).2 = .pending rest ∧
        s.readOn = { s with incoming := rest }.receiveAll (Frame.split s.limit s.incoming).1) := by
  unfold readOn
  by_cases hr : s.reading
  · refine Or.inr ⟨hr, ?_⟩
    simp only [hr, Bool.not_true, Bool.false_eq_true, if_false]
    rcases Frame.split s.limit s.incoming with ⟨payloads, rest | _⟩
    · refine ⟨rest, ?_⟩
      dsimp only
      split
      · exact Or.inl rfl
      · exact Or.inr ⟨rfl, rfl⟩
    · exact ⟨[], Or.inl rfl⟩
  · exact Or.inl (by simp [hr])

theorem read_eq_or (s : PeerSocket) : s.read = s.stopReading ∨ s.read = s.readOn :=
  ite_eq_or_eq ..

/-- Whether a socket is read, was not closed, and has the other end there. -/
structure Live (s : PeerSocket) : Prop where
  reading : s.reading = true
  isOpen : s.closed = false
  present : s.hungUp = false

instance (s : PeerSocket) : Decidable s.Live :=
  decidable_of_iff (s.reading = true ∧ s.closed = false ∧ s.hungUp = false)
    ⟨fun ⟨hr, ho, hp⟩ => ⟨hr, ho, hp⟩, fun ⟨hr, ho, hp⟩ => ⟨hr, ho, hp⟩⟩

theorem not_live_stopReading (s : PeerSocket) : ¬s.stopReading.Live :=
  fun h => nomatch h.reading

end PeerSocket

/-! ### Ends and connections -/

/-- One end of a connection, with a record of what it has done. -/
structure Endpoint where
  socket : PeerSocket
  /-- The packets it took for sending, oldest first. -/
  sent : List Packet
  /-- The packets its handler was given, oldest first. -/
  handled : List Packet
  /-- The number of data frames it has written. -/
  written : Nat
  deriving DecidableEq

namespace Endpoint

/-- An end that is read and over which nothing has gone. -/
def opened (id : NodeId) (limit : Nat) : Endpoint where
  socket := (PeerSocket.fresh id limit).startReading
  sent := []
  handled := []
  written := 0

/-- The packets it has read, whether the handler has had them or not. -/
def received (e : Endpoint) : List Packet := e.handled ++ e.socket.inbox

/-- The number of frames that are gone from its queue, since the other end has acknowledged them. -/
def acknowledged (e : Endpoint) : Nat := e.sent.length - e.socket.outbox.size

/-- Whether the frame of a packet is within the limit. -/
def writable (e : Endpoint) (p : Packet) : Bool := p.wire.length ≤ e.socket.limit

/-- Takes a packet for sending, if it can be encoded. -/
def send (e : Endpoint) (packet : Packet) : Endpoint :=
  match e.socket.sendPacket packet with
  | .ok socket => { e with socket := socket, sent := e.sent ++ [packet] }
  | .error _ => e

/-- Does the first of the writes that are due. -/
def write (e : Endpoint) : Endpoint :=
  { e with
    socket := e.socket.write
    written := if e.socket.write.outgoing = e.socket.outgoing then e.written else e.written + 1 }

/-- Goes on with the reading, or ends it if the socket was closed. -/
def read (e : Endpoint) : Endpoint :=
  { e with socket := e.socket.read }

/-- Reads everything that has arrived, before it finds that the socket was closed. -/
def readOn (e : Endpoint) : Endpoint :=
  { e with socket := e.socket.readOn }

/-- Hands the packet that was read first to the handler. -/
def handle (e : Endpoint) : Endpoint :=
  { e with
    socket := { e.socket with inbox := e.socket.inbox.tail }
    handled := e.handled ++ e.socket.inbox.head?.toList }

/-- Closes the socket. -/
def close (e : Endpoint) : Endpoint :=
  { e with socket := e.socket.close }

/-- Finds that the other end has gone. -/
def abandon (e : Endpoint) : Endpoint :=
  { e with socket := e.socket.hangUp }

theorem send_cases (e : Endpoint) (packet : Packet) :
    e.send packet = e ∨ packet.Fits ∧ e.send packet =
      { e with socket := e.socket.send packet.wire, sent := e.sent ++ [packet] } := by
  unfold send PeerSocket.sendPacket
  cases he : packet.encode with
  | error error => exact Or.inl rfl
  | ok bytes =>
      obtain ⟨hf, rfl⟩ := Packet.encode_eq_wire.mp he
      exact Or.inr ⟨hf, rfl⟩

/-- A write that is due is dropped by a closed socket; else it fails, or the frame is written. -/
theorem write_cases (e : Endpoint) :
    e.socket.writes = [] ∧ e.write = e ∨
    ∃ frame rest, e.socket.writes = frame :: rest ∧
      (e.socket.closed ∧ e.write = { e with socket := { e.socket with writes := rest } } ∨
        (e.socket.hungUp ∨ e.socket.limit < frame.length) ∧ e.write =
          { e with socket :=
            { e.socket with writes := rest, outbox := e.socket.outbox.writeFailed } } ∨
        frame.length ≤ e.socket.limit ∧ e.write =
          { e with
            socket :=
              { e.socket with
                writes := rest
                outgoing := e.socket.outgoing ++ Frame.layout frame }
            written := e.written + 1 }) := by
  cases hw : e.socket.writes with
  | nil =>
      refine Or.inl ⟨rfl, ?_⟩
      simp [write, PeerSocket.write, hw]
  | cons frame rest =>
      refine Or.inr ⟨frame, rest, rfl, ?_⟩
      unfold write PeerSocket.write
      rw [hw]
      by_cases hc : e.socket.closed
      · exact Or.inl ⟨hc, by simp [hc]⟩
      · refine Or.inr ?_
        simp only [hc, Bool.false_eq_true, if_false, PeerSocket.transmit?_eq]
        by_cases hf : e.socket.hungUp ∨ e.socket.limit < frame.length
        · exact Or.inl ⟨hf, by simp [hf]⟩
        · rw [not_or, Nat.not_lt] at hf
          refine Or.inr ⟨hf.2, ?_⟩
          simp [hf, Nat.not_lt.mpr hf.2, Frame.layout_ne_nil]

end Endpoint

/-- Two ends that are connected. -/
structure Connection where
  near : Endpoint
  far : Endpoint
  deriving DecidableEq

namespace Connection

/-- Something that happens at one end. -/
inductive Action where
  | send (packet : Packet)
  | write
  /-- The next bytes that it has written arrive at the other end. -/
  | carry (count : Nat)
  | read
  | readOn
  | handle
  | close
  | abandon

/-- The connection after something has happened at its near end. -/
def act (c : Connection) : Action → Connection
  | .send packet => { c with near := c.near.send packet }
  | .write => { c with near := c.near.write }
  | .carry count =>
    { near := { c.near with
        socket := { c.near.socket with outgoing := c.near.socket.outgoing.drop count } }
      far := { c.far with
        socket := c.far.socket.arrive (c.near.socket.outgoing.take count) } }
  | .read => { c with near := c.near.read }
  | .readOn => { c with near := c.near.readOn }
  | .handle => { c with near := c.near.handle }
  | .close => { c with near := c.near.close }
  | .abandon => { c with near := c.near.abandon }

/-- The connection as it looks from the other end. -/
def turn (c : Connection) : Connection := ⟨c.far, c.near⟩

/-- What is asked of those who use the socket: only packets that can be sent are. -/
def Allows (c : Connection) : Action → Prop
  | .send packet => packet.Sendable c.near.socket.limit
  | _ => True

instance (c : Connection) : (action : Action) → Decidable (c.Allows action)
  | .send packet => inferInstanceAs (Decidable (packet.Sendable c.near.socket.limit))
  | .write | .carry _ | .read | .readOn | .handle | .close | .abandon => isTrue trivial

/-- The connections that a handshake and what happens at both ends can lead to. -/
inductive Reached : Connection → Prop where
  | opened (a b : NodeId) (m n : Nat) : Reached ⟨.opened b m, .opened a n⟩
  | act {c : Connection} (action : Action) :
      Reached c → c.Allows action → Reached (c.act action)
  /-- What is said of one end holds for the other. -/
  | turn {c : Connection} : Reached c → Reached c.turn

/-- Both ends go on. -/
structure Healthy (c : Connection) : Prop where
  near : c.near.socket.Live
  far : c.far.socket.Live

instance (c : Connection) : Decidable c.Healthy :=
  decidable_of_iff (c.near.socket.Live ∧ c.far.socket.Live)
    ⟨fun ⟨hn, hf⟩ => ⟨hn, hf⟩, fun ⟨hn, hf⟩ => ⟨hn, hf⟩⟩

/-- Nothing is due to be written, and nothing is on its way. -/
structure Quiet (c : Connection) : Prop where
  nearWrites : c.near.socket.writes = []
  farWrites : c.far.socket.writes = []
  toFar : c.far.socket.incoming ++ c.near.socket.outgoing = []
  toNear : c.near.socket.incoming ++ c.far.socket.outgoing = []

instance (c : Connection) : Decidable c.Quiet :=
  decidable_of_iff (c.near.socket.writes = [] ∧ c.far.socket.writes = [] ∧
      c.far.socket.incoming ++ c.near.socket.outgoing = [] ∧
      c.near.socket.incoming ++ c.far.socket.outgoing = [])
    ⟨fun ⟨hn, hf, ho, hi⟩ => ⟨hn, hf, ho, hi⟩, fun ⟨hn, hf, ho, hi⟩ => ⟨hn, hf, ho, hi⟩⟩

end Connection

end ShardGossip
