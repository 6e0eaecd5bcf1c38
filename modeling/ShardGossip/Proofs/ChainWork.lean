import ShardGossip.Chain.Work
import ShardGossip.Proofs.Connection
import ShardGossip.Proofs.Continuity

/-!
# ShardGossip.Proofs.ChainWork

**What the work of a chain comes down to.** Sending packets and closing connections changes nothing
but connections (`Chain.Transmits`), and putting a change of the state into effect sends packets and
queues committed events (`Chain.apply_cases`). So the state of a chain goes on whatever it does by
itself, and its committed events stay in their queue, also when connections come and go
(`Chain.Proceeds`); other than then, the connections in use stay (`Chain.Works`).
-/

namespace ShardGossip

namespace PeerSocket

variable {s s' : PeerSocket}

/-! ### A connection is to one node -/

theorem id_transmit? {frame : Bytes} (h : s.transmit? frame = some s') : s'.id = s.id := by
  rw [transmit?_eq] at h
  split at h
  case isTrue => cases h
  case isFalse => cases h; rfl

@[simp] theorem id_write (s : PeerSocket) : s.write.id = s.id := by
  simp only [write]
  split
  · rfl
  · split
    · rfl
    · rename_i frame rest _ _
      cases ht : ({ s with writes := rest } : PeerSocket).transmit? frame with
      | none => rfl
      | some s' => exact (id_transmit? ht :)

@[simp] theorem id_receive (s : PeerSocket) (payload : Bytes) : (s.receive payload).id = s.id := by
  simp only [receive]
  split
  · rfl
  · split
    · next ht => exact (id_transmit? ht :)
    · rfl
  · cases ht : s.transmit? [Packet.received.tag] with
    | none => rfl
    | some s' => exact id_transmit? ht

@[simp] theorem id_receiveAll (s : PeerSocket) (payloads : List Bytes) :
    (s.receiveAll payloads).id = s.id := by
  induction payloads generalizing s with
  | nil => rfl
  | cons payload rest ih =>
      rw [receiveAll_cons, ih]
      split
      · exact id_receive s payload
      · rfl

@[simp] theorem id_read (s : PeerSocket) : s.read.id = s.id := by
  rcases s.read_eq_or with h | h
  · rw [h, stopReading]
  · rw [h]
    rcases s.readOn_cases with h | ⟨-, rest, h | ⟨-, h⟩⟩
    · rw [h]
    · rw [h]
      exact id_receiveAll { s with incoming := rest } _
    · rw [h]
      exact id_receiveAll { s with incoming := rest } _

end PeerSocket

namespace Chain

variable {α β : Type} {f : PeerSocket → α} {c c' c'' : Chain}

/-! ### Sending and closing -/

/-- Only connections have changed, and what is due for them. Something of each connection stays. -/
def Transmits (f : PeerSocket → α) (c c' : Chain) : Prop :=
  ∃ connections due, connections.map f = c.connections.map f ∧
    c' = { c with connections := connections, due := due }

theorem Transmits.refl (c : Chain) : Transmits f c c :=
  ⟨c.connections, c.due, rfl, rfl⟩

theorem Transmits.trans (h : Transmits f c c') (h' : Transmits f c' c'') : Transmits f c c'' := by
  obtain ⟨connections, due, hmap, rfl⟩ := h
  obtain ⟨connections', due', hmap', rfl⟩ := h'
  exact ⟨connections', due', hmap'.trans hmap, rfl⟩

theorem transmits_remind (c : Chain) (work : List Work) : Transmits f c (c.remind work) :=
  ⟨c.connections, c.due ++ work, rfl, rfl⟩

theorem map_set_of_getElem? {l : List PeerSocket} {n : Nat} {s s' : PeerSocket}
    (h : l[n]? = some s) (hf : f s' = f s) : (l.set n s').map f = l.map f := by
  obtain ⟨hn, rfl⟩ := List.getElem?_eq_some_iff.mp h
  have hself := List.set_getElem_self (show n < (l.map f).length by simpa)
  rw [List.getElem_map] at hself
  rw [List.map_set, hf]
  exact hself

theorem transmits_updateSocket {change : PeerSocket → PeerSocket} (h : ∀ s, f (change s) = f s)
    (c : Chain) (n : Nat) : Transmits f c (c.updateSocket n change) := by
  simp only [updateSocket]
  split
  · exact .refl c
  · rename_i s hs
    exact ⟨c.connections.set n (change s), _, map_set_of_getElem? hs (h s), rfl⟩

theorem transmits_foldl {g : Chain → β → Chain} (h : ∀ (c : Chain) (b : β), Transmits f c (g c b))
    (bs : List β) (c : Chain) : Transmits f c (bs.foldl g c) :=
  List.foldlRecOn (motive := Transmits f c) bs g (.refl c) fun d hd b _ => hd.trans (h d b)

theorem transmits_closeAll (h : ∀ s : PeerSocket, f s.close = f s) (c : Chain) (ns : List Nat) :
    Transmits f c (c.closeAll ns) :=
  transmits_foldl (fun c n => transmits_updateSocket h c n) ns c

theorem transmits_sendFrame (h : ∀ (s : PeerSocket) (frame : Bytes), f (s.send frame) = f s)
    (c : Chain) (ns : List Nat) (frame : Bytes) : Transmits f c (c.sendFrame ns frame) :=
  transmits_foldl (fun c n => transmits_updateSocket (h · frame) c n) ns c

theorem transmits_sendOutbound (h : ∀ (s : PeerSocket) (frame : Bytes), f (s.send frame) = f s)
    (c : Chain) (outbound : Outbound) : Transmits f c (c.sendOutbound outbound) := by
  simp only [sendOutbound]
  cases outbound <;>
    · dsimp only
      split
      · exact transmits_sendFrame h c _ _
      · exact .refl c

/-- The packets of a change of the state are sent, and its committed events are queued. -/
theorem apply_cases (h : ∀ (s : PeerSocket) (frame : Bytes), f (s.send frame) = f s) (c : Chain)
    (o : Outcome) : ∃ connections due woken, connections.map f = c.connections.map f ∧
      c.apply o = { c with
        replica := o.replica
        connections := connections
        due := due
        woken := woken
        committed := c.committed ++ o.effects.committed } := by
  obtain ⟨connections, due, hmap, hsent⟩ := transmits_foldl (transmits_sendOutbound h)
    o.effects.outbound { c with replica := o.replica }
  have hqueued (d : Chain) (events : List Event) : ∃ due,
      d.enqueue events = { d with committed := d.committed ++ events, due := due } := by
    simp only [enqueue]
    split
    case isTrue he => exact ⟨d.due, by simp [List.isEmpty_iff.mp he]⟩
    case isFalse => exact ⟨_, rfl⟩
  obtain ⟨due', hqueued⟩ := hqueued { c with
    replica := o.replica, connections := connections, due := due } o.effects.committed
  simp only [apply, hsent, hqueued]
  split
  · exact ⟨connections, _, true, hmap, rfl⟩
  · exact ⟨connections, due', c.woken, hmap, rfl⟩

/-! ### Connections that come and go -/

/-- A connection that is offered is refused and closed, or it comes into use in place of an older
one, which is closed. -/
theorem attach_cases (c : Chain) (socket : PeerSocket) :
    (∃ refusal, c.objection socket.id = some refusal ∧ c.attach socket = (some refusal,
      { c with connections := c.connections ++ [socket] }.updateSocket c.connections.length
        fun s => s.close.stopReading)) ∨
    c.objection socket.id = none ∧ ∃ connections due,
      connections.map (fun s => (s.id, s.closed)) =
        (c.connections ++ [socket]).map (fun s => (s.id, s.closed)) ∧
      c.attach socket = (none, (({ c with
        replica := (c.replica.takeSyncFor socket.id).2
        connections := connections
        sockets := c.sockets.insert socket.id c.connections.length
        due := due }.closeAll c.sockets[socket.id]?.toList).updateSocket c.connections.length
          .startReading).remind [.read c.connections.length]) := by
  have ho : ({ c with connections := c.connections ++ [socket] } : Chain).objection socket.id =
    c.objection socket.id := rfl
  simp only [attach, ho]
  split
  · rename_i refusal hr
    exact .inl ⟨refusal, hr, rfl⟩
  · rename_i hr
    have hsent := transmits_foldl (f := fun s => (s.id, s.closed))
      (fun c p => c.transmits_sendOutbound (fun _ _ => rfl) (.sendTo socket.id p))
      (c.replica.takeSyncFor socket.id).1 { c with
        replica := (c.replica.takeSyncFor socket.id).2
        connections := c.connections ++ [socket]
        sockets := c.sockets.insert socket.id c.connections.length }
    obtain ⟨connections, due, hmap, hsent⟩ := hsent
    refine .inr ⟨hr, connections, due, hmap, ?_⟩
    rw [← hsent]
    rfl

theorem connectionClosed_cases (c : Chain) (n : Nat) :
    ∃ sockets, c.connectionClosed n = { c with sockets := sockets } := by
  simp only [connectionClosed]
  split
  · exact ⟨c.sockets, rfl⟩
  · split
    · exact ⟨_, rfl⟩
    · exact ⟨c.sockets, rfl⟩

/-- Reading may find that the connection has ended. -/
theorem read_cases (c : Chain) (n : Nat) : ∃ d : Chain, Transmits (·.id) c d ∧
    c.read n = if c.connections[n]?.any fun s => s.reading && !s.read.reading
      then d.connectionClosed n else d := by
  cases hs : c.connections[n]? with
  | none => exact ⟨c, .refl c, by simp [read, hs]⟩
  | some s =>
      obtain ⟨hn, he⟩ := List.getElem?_eq_some_iff.mp hs
      have hnew : (c.updateSocket n .read).connections[n]? = some s.read := by
        simp [updateSocket, remind, hn, he]
      refine ⟨if s.read.inbox.isEmpty then c.updateSocket n .read
        else (c.updateSocket n .read).remind [.handle n], ?_, by simp [read, hs, hnew]⟩
      have hu := transmits_updateSocket PeerSocket.id_read c n
      split
      · exact hu
      · exact hu.trans (transmits_remind _ _)

/-- Connections to those who have left are closed and go out of use. -/
theorem setMembers_cases (c : Chain) (members : List NodeId) : ∃ connections due woken,
    connections.map (·.id) = c.connections.map (·.id) ∧ c.setMembers members = { c with
      replica := (c.replica.setMembers members).replica
      connections := connections
      sockets := (c.sockets.toList.filter fun (id, _) => members.contains id).foldl
        (fun map (id, n) => map.insert id n) ∅
      due := due
      woken := woken
      committed := c.committed ++ (c.replica.setMembers members).effects.committed } := by
  simp only [setMembers, List.partition_eq_filter_filter]
  obtain ⟨connections, due, hmap, hclosed⟩ := transmits_closeAll (f := (·.id)) (fun _ => rfl)
    { c with
      sockets := (c.sockets.toList.filter fun (id, _) => members.contains id).foldl
        (fun map (id, n) => map.insert id n) ∅ }
    ((c.sockets.toList.filter (not ∘ fun (id, _) => members.contains id)).map (·.2))
  rw [hclosed]
  obtain ⟨connections', due', woken, hmap', ha⟩ := apply_cases (f := (·.id)) (fun _ _ => rfl) _ _
  exact ⟨connections', due', woken, hmap'.trans hmap, ha⟩

theorem shutdown_cases (h : c.shutDown = false) : ∃ connections due,
    connections.map (·.id) = c.connections.map (·.id) ∧ c.shutdown = { c with
      connections := connections
      sockets := ∅
      running := false
      shutDown := true
      due := due } := by
  obtain ⟨connections, due, hmap, hclosed⟩ := transmits_closeAll (f := (·.id)) (fun _ => rfl)
    { c with shutDown := true, running := false, sockets := ∅ } c.sockets.values
  exact ⟨connections, due, hmap, by simp [shutdown, h, hclosed]⟩

@[simp] theorem replica_shutdown (c : Chain) : c.shutdown.replica = c.replica := by
  cases hd : c.shutDown with
  | false =>
      obtain ⟨connections, due, -, hs⟩ := shutdown_cases hd
      rw [hs]
  | true => simp [shutdown, hd]

/-- An older connection is closed, and a new one begins to be read. -/
theorem transmits_takenOver (c : Chain) (ns : List Nat) (n : Nat) (work : List Work) :
    Transmits (·.id) c (((c.closeAll ns).updateSocket n .startReading).remind work) := by
  have hread : ∀ s : PeerSocket, s.startReading.id = s.id := fun _ => rfl
  exact ((transmits_closeAll (fun _ => rfl) c ns).trans (transmits_updateSocket hread _ n)).trans
    (transmits_remind _ work)

/-! ### What stays -/

/-- The members have stayed, and so have the loops of the chain; its state has gone on, and
committed events have been queued at most. -/
structure Proceeds (c c' : Chain) : Prop where
  state : c.replica.GoesOn c'.replica
  committed : c.committed <+: c'.committed
  rest : (c'.serial, c'.pipeline, c'.running, c'.shutDown, c'.loops) =
    (c.serial, c.pipeline, c.running, c.shutDown, c.loops)

/-- The connections in use have stayed as well, and whom the connections are to. -/
structure Works (c c' : Chain) : Prop extends c.Proceeds c' where
  sockets : c'.sockets = c.sockets
  ends : c'.connections.map (·.id) = c.connections.map (·.id)

theorem Proceeds.trans (h : c.Proceeds c') (h' : c'.Proceeds c'') : c.Proceeds c'' :=
  ⟨h.state.trans h'.state, h.committed.trans h'.committed, h'.rest.trans h.rest⟩

theorem Works.trans (h : c.Works c') (h' : c'.Works c'') : c.Works c'' :=
  ⟨h.toProceeds.trans h'.toProceeds, h'.sockets.trans h.sockets, h'.ends.trans h.ends⟩

theorem Transmits.proceeds (h : Transmits f c c') : c.Proceeds c' := by
  obtain ⟨connections, due, -, rfl⟩ := h
  exact ⟨.refl _, List.prefix_refl _, rfl⟩

theorem Transmits.works (h : Transmits (·.id) c c') : c.Works c' := by
  have hp := h.proceeds
  obtain ⟨connections, due, hmap, rfl⟩ := h
  exact ⟨hp, rfl, hmap⟩

theorem Works.refl (c : Chain) : c.Works c :=
  (Transmits.refl c).works

theorem proceeds_take {taking : Replica → α × Replica}
    (h : c.replica.GoesOn (taking c.replica).2) : c.Proceeds (c.take taking).2 :=
  ⟨h, List.prefix_refl _, rfl⟩

theorem proceeds_connectionClosed (c : Chain) (n : Nat) : c.Proceeds (c.connectionClosed n) := by
  obtain ⟨sockets, hc⟩ := c.connectionClosed_cases n
  rw [hc]
  exact ⟨.refl _, List.prefix_refl _, rfl⟩

theorem proceeds_attach (c : Chain) (socket : PeerSocket) : c.Proceeds (c.attach socket).2 := by
  rcases c.attach_cases socket with ⟨refusal, -, ha⟩ | ⟨-, connections, due, -, ha⟩
  · rw [ha]
    refine Proceeds.trans ?_ (transmits_updateSocket (f := fun _ => ()) (fun _ => rfl) _ _).proceeds
    exact ⟨.refl _, List.prefix_refl _, rfl⟩
  · rw [ha]
    refine Proceeds.trans ?_ (transmits_takenOver _ _ _ _).proceeds
    exact ⟨c.replica.goesOn_takeSyncFor socket.id, List.prefix_refl _, rfl⟩

theorem proceeds_read (c : Chain) (n : Nat) : c.Proceeds (c.read n) := by
  obtain ⟨d, hd, hr⟩ := c.read_cases n
  rw [hr]
  split
  · exact hd.proceeds.trans (d.proceeds_connectionClosed n)
  · exact hd.proceeds

theorem works_apply {o : Outcome} (h : c.replica.GoesOn o.replica) : c.Works (c.apply o) := by
  obtain ⟨connections, due, woken, hmap, ha⟩ := c.apply_cases (f := (·.id)) (fun _ _ => rfl) o
  rw [ha]
  exact ⟨⟨h, List.prefix_append .., rfl⟩, rfl, hmap⟩

theorem works_write (c : Chain) (n : Nat) : c.Works (c.write n) :=
  (transmits_updateSocket PeerSocket.id_write c n).works

theorem works_handOff {transactions : List Transaction} (h : c.handOff? transactions = some c') :
    c.Works c' := by
  simp only [handOff?] at h
  split at h
  · cases h
  · split at h
    · cases h
      exact (transmits_sendFrame (fun _ _ => rfl) c _ _).works
    · cases h

theorem works_merge (c : Chain) (events : List Event) : c.Works (c.merge events) :=
  works_apply (c.replica.goesOn_adopt _ .reorder c.signer)

theorem works_handlePacket (c : Chain) (sender : NodeId) (packet : Packet) :
    c.Works (c.handlePacket sender packet) := by
  simp only [handlePacket]
  split
  · rename_i o ho
    exact works_apply (Replica.goesOn_onPacket ho)
  · exact .refl c

theorem works_handle (c : Chain) (n : Nat) : c.Works (c.handle n) := by
  simp only [handle]
  split
  · exact .refl c
  · rename_i s hs
    have hid : s.takeInbox.2.id = s.id := rfl
    have htaken : Transmits (·.id) c { c with connections := c.connections.set n s.takeInbox.2 } :=
      ⟨_, c.due, map_set_of_getElem? hs hid, rfl⟩
    exact List.foldlRecOn (motive := c.Works) _ _ htaken.works fun d hd p _ =>
      hd.trans (d.works_handlePacket _ p)

theorem works_tick (c : Chain) (now wall : Nat) : c.Works (c.tick now wall) := by
  simp only [tick]
  split
  · refine Works.trans ?_ (works_apply (c.replica.goesOn_sealEvent wall c.signer))
    exact ⟨⟨.refl _, List.prefix_refl _, rfl⟩, rfl, rfl⟩
  · exact .refl c

theorem works_runElections (fuel : Nat) (c : Chain) : c.Works (c.runElections fuel) := by
  induction fuel generalizing c with
  | zero => exact .refl c
  | succ fuel ih =>
      simp only [runElections]
      split
      · refine Works.trans ?_ (ih _)
        refine Works.trans ?_ (works_apply c.replica.goesOn_runElection)
        exact ⟨⟨.refl _, List.prefix_refl _, rfl⟩, rfl, rfl⟩
      · exact .refl c

theorem works_elect (c : Chain) (now : Nat) : c.Works (c.elect now) := by
  have hwaited : c.Works { c with deadline := some (now + c.config.roundTimeout) } :=
    ⟨⟨.refl _, List.prefix_refl _, rfl⟩, rfl, rfl⟩
  simp only [elect]
  split
  · exact .refl c
  · split
    · exact hwaited.trans (works_runElections _ _)
    · split
      · exact hwaited
      · split
        · exact hwaited.trans (works_apply (c.replica.goesOn_retransmit c.signer))
        · exact .refl c

end Chain

end ShardGossip
