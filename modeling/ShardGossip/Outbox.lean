import ShardGossip.Bytes

/-!
# ShardGossip.Outbox

The frames that wait to be sent over a connection.

The far end acknowledges every data frame. Until it has, the frame stays at the head of the queue
and no other one is sent: at most one frame is in flight, and it is always the head. Each operation
gives the frame that has to be written now, if there is one.
-/

namespace ShardGossip

/-- Frames to be sent, oldest first. -/
structure Outbox where
  queue : List Bytes
  inFlight : Bool
  deriving DecidableEq, Repr

namespace Outbox

/-- Nothing to be sent. -/
def empty : Outbox := ⟨[], false⟩

instance : EmptyCollection Outbox := ⟨empty⟩

instance : Inhabited Outbox := ⟨∅⟩

/-- The number of frames. -/
def size (o : Outbox) : Nat :=
  o.queue.length

/-- Queues a frame. The head is to be written unless a frame is in flight. -/
def push (o : Outbox) (frame : Bytes) : Option Bytes × Outbox :=
  let queue := o.queue ++ [frame]
  (if o.inFlight then none else queue.head?, ⟨queue, true⟩)

/-- Drops the head, which the far end has acknowledged. The next frame is to be written. -/
def acknowledge (o : Outbox) : Option Bytes × Outbox :=
  let rest := o.queue.tail
  (rest.head?, ⟨rest, o.inFlight && !rest.isEmpty⟩)

/-- The head could not be written. It stays, and is written again when the next frame is queued. -/
def writeFailed (o : Outbox) : Outbox :=
  { o with inFlight := false }

@[simp] theorem queue_push (o : Outbox) (frame : Bytes) :
    (o.push frame).2.queue = o.queue ++ [frame] := rfl

@[simp] theorem queue_acknowledge (o : Outbox) : o.acknowledge.2.queue = o.queue.tail := rfl

@[simp] theorem queue_writeFailed (o : Outbox) : o.writeFailed.queue = o.queue := rfl

end Outbox

end ShardGossip
