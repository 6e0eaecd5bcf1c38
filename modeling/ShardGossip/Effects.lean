import ShardGossip.Packet

/-!
# ShardGossip.Effects

What a change of a member's state asks of the world around it.

A member of a shard is a state that inputs change. It owns no connection: packets to send, events to
deliver and a pending election are given back as effects, in the order in which they came about, and
effects of several changes are put one after the other.
-/

namespace ShardGossip

/-- A packet to be sent. -/
inductive Outbound where
  | broadcast (packet : Packet)
  | sendTo (target : NodeId) (packet : Packet)
  deriving DecidableEq

/-- The effects of a change. -/
structure Effects where
  outbound : List Outbound
  /-- Events to deliver, in the order in which they were committed. -/
  committed : List Event
  wake : Bool
  deriving DecidableEq

namespace Effects

/-- No effects. -/
def none : Effects := ⟨[], [], false⟩

/-- One packet to every other member. -/
def broadcast (packet : Packet) : Effects := { none with outbound := [.broadcast packet] }

/-- One packet to one member. -/
def sendTo (target : NodeId) (packet : Packet) : Effects :=
  { none with outbound := [.sendTo target packet] }

/-- One event to deliver. -/
def commit (event : Event) : Effects := { none with committed := [event] }

/-- An election to be run. -/
def wakeUp : Effects := { none with wake := true }

/-- Both effects, one after the other. -/
def append (a b : Effects) : Effects :=
  ⟨a.outbound ++ b.outbound, a.committed ++ b.committed, a.wake || b.wake⟩

instance : EmptyCollection Effects := ⟨none⟩

instance : Append Effects := ⟨append⟩

instance : Inhabited Effects := ⟨none⟩

/-- Whether nothing is asked. -/
def isEmpty (e : Effects) : Bool :=
  e.outbound.isEmpty && e.committed.isEmpty && !e.wake

@[simp] theorem outbound_append (a b : Effects) :
    (a ++ b).outbound = a.outbound ++ b.outbound := rfl

@[simp] theorem committed_append (a b : Effects) :
    (a ++ b).committed = a.committed ++ b.committed := rfl

@[simp] theorem wake_append (a b : Effects) : (a ++ b).wake = (a.wake || b.wake) := rfl

@[simp] theorem outbound_empty : (∅ : Effects).outbound = [] := rfl

@[simp] theorem committed_empty : (∅ : Effects).committed = [] := rfl

@[simp] theorem wake_empty : (∅ : Effects).wake = false := rfl

@[simp] theorem empty_append (e : Effects) : ∅ ++ e = e := rfl

@[simp] theorem append_empty (e : Effects) : e ++ ∅ = e := by
  cases e
  show Effects.append _ _ = _
  simp [append]

theorem append_assoc (a b c : Effects) : a ++ b ++ c = a ++ (b ++ c) := by
  show Effects.append (Effects.append a b) c = Effects.append a (Effects.append b c)
  simp [append, List.append_assoc, Bool.or_assoc]

end Effects

end ShardGossip
