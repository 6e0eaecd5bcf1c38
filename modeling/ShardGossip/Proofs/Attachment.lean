import ShardGossip.Proofs.TableView

/-!
# ShardGossip.Proofs.Attachment

**Which connection of a chain is in use for which member** (`Chain.History.attachments`). A chain
meets connections that are offered to it, connections that have ended, new members and its end
(`Chain.Contact`), in any order, while it does its work. A connection that was taken stays in use
until another one is taken for the same member, its own end is reported, the member is dropped or
the chain is shut down (`Chain.InUse`); the end of a connection that was replaced changes nothing.
-/

namespace ShardGossip

namespace Chain

variable {c c' : Chain}

/-! ### What the choice of connections depends on -/

/-- What the choice of connections depends on. -/
structure Linkage where
  localId : NodeId
  peers : NodeSet
  shutDown : Bool
  sockets : NodeMap Nat
  /-- Whom the connections are to, in the order in which they were offered. -/
  ends : List NodeId

/-- How a chain is linked. -/
def linkage (c : Chain) : Linkage :=
  ⟨c.localId, c.replica.peers, c.shutDown, c.sockets, c.connections.map (·.id)⟩

theorem Works.linkage (h : c.Works c') : c'.linkage = c.linkage := by
  obtain ⟨⟨hg, -, he⟩, hs, hn⟩ := h
  simp only [Prod.mk.injEq] at he
  simp only [Chain.linkage, localId, hg.localId, hg.peers, he.2.2.2, hs, hn]

/-- A connection that has ended is taken out of use. -/
def Linkage.lose (k : Linkage) (n : Nat) : Linkage :=
  match k.ends[n]? with
  | none => k
  | some id => if k.sockets[id]? = some n then { k with sockets := k.sockets.erase id } else k

theorem Linkage.lose_rest (k : Linkage) (n : Nat) :
    k.lose n = { k with sockets := (k.lose n).sockets } := by
  simp only [lose]
  split
  · rfl
  · split <;> rfl

/-- If the connections in use are to those they are used for, nothing else goes out of use. -/
theorem Linkage.sockets_lose_iff {k : Linkage} {n m : Nat} {id : NodeId}
    (h : ∀ (id : NodeId) (m : Nat), k.sockets[id]? = some m → k.ends[m]? = some id) :
    (k.lose n).sockets[id]? = some m ↔ k.sockets[id]? = some m ∧ n ≠ m := by
  simp only [lose]
  split
  case h_1 hn => grind
  case h_2 other hn =>
    split
    case isTrue hu =>
      rw [getElem?_erase_eq]
      grind
    case isFalse hu => grind

theorem linkage_connectionClosed (c : Chain) (n : Nat) :
    (c.connectionClosed n).linkage = c.linkage.lose n := by
  have he : c.linkage.ends[n]? = c.connections[n]?.map (·.id) := List.getElem?_map
  rcases Option.eq_none_or_eq_some c.connections[n]? with hs | ⟨s, hs⟩
  · simp [connectionClosed, Linkage.lose, he, hs]
  · have hk : c.linkage.sockets = c.sockets := rfl
    simp only [connectionClosed, Linkage.lose, he, hs, hk, Option.map_some]
    split
    · rfl
    · rfl

/-- Whether reading a connection now ends its reading. -/
def losing (c : Chain) (n : Nat) : Bool :=
  c.connections[n]?.any fun s => s.reading && !s.read.reading

/-- Reading finds at most that the connection has ended. -/
theorem linkage_read (c : Chain) (n : Nat) :
    (c.read n).linkage = (if c.losing n then c.connectionClosed n else c).linkage := by
  obtain ⟨d, hd, hr⟩ := c.read_cases n
  rw [hr]
  show Chain.linkage (if c.losing n then _ else _) = _
  split
  · rw [linkage_connectionClosed, linkage_connectionClosed, hd.works.linkage]
  · exact hd.works.linkage

/-- What a chain does by itself or is asked for besides. -/
inductive Chore where
  | run
  | tick (now wall : Nat)
  | elect (now : Nat)
  /-- The next committed event is taken for its delivery. -/
  | deliver
  | handle (connection : Nat)
  | write (connection : Nat)
  | submit (transaction : Transaction)
  | absorb (transactions : List Transaction)
  | handOff (transactions : List Transaction)
  | merge (events : List Event)
  | register (pipeline : Pipeline)
  | takeOwnTransactions
  | takeResponses
  | takePendingEvents
  | takeLeftovers

/-- Does it. -/
def perform (c : Chain) : Chore → Chain
  | .run => c.run
  | .tick now wall => c.tick now wall
  | .elect now => c.elect now
  | .deliver => (c.takeCommitted?.map (·.2)).getD c
  | .handle connection => c.handle connection
  | .write connection => c.write connection
  | .submit transaction => c.submit transaction
  | .absorb transactions => c.absorb transactions
  | .handOff transactions => (c.handOff? transactions).getD c
  | .merge events => c.merge events
  | .register pipeline => c.register pipeline
  | .takeOwnTransactions => (c.take (·.takeOwnTransactions)).2
  | .takeResponses => (c.take (·.takeResponses)).2
  | .takePendingEvents => (c.take (·.takePendingEvents)).2
  | .takeLeftovers => (c.take (·.takeLeftovers)).2

theorem linkage_perform (c : Chain) (w : Chore) : (c.perform w).linkage = c.linkage := by
  cases w with
  | run =>
      simp only [perform, run]
      split <;> rfl
  | tick now wall => exact (c.works_tick now wall).linkage
  | elect now => exact (c.works_elect now).linkage
  | deliver =>
      simp only [perform, takeCommitted?]
      split <;> rfl
  | handle connection => exact (c.works_handle connection).linkage
  | write connection => exact (c.works_write connection).linkage
  | submit transaction => rfl
  | absorb transactions => rfl
  | handOff transactions =>
      simp only [perform]
      cases ho : c.handOff? transactions with
      | none => rfl
      | some d => exact (works_handOff ho).linkage
  | merge events => exact (c.works_merge events).linkage
  | register pipeline => rfl
  | takeOwnTransactions => rfl
  | takeResponses => rfl
  | takePendingEvents => rfl
  | takeLeftovers => rfl

/-! ### Contacts -/

/-- A connection that is offered gets the next number, under which it comes into use if it is
taken. -/
theorem linkage_attach (c : Chain) (socket : PeerSocket) :
    (c.attach socket).2.linkage = { c.linkage with
      sockets :=
        if c.objection socket.id = none then c.sockets.insert socket.id c.connections.length
        else c.sockets
      ends := c.linkage.ends ++ [socket.id] } := by
  rcases c.attach_cases socket with ⟨refusal, hr, ha⟩ | ⟨hr, connections, due, hmap, ha⟩
  · rw [ha, if_neg (by simp [hr])]
    refine (transmits_updateSocket (fun s => by rfl) _ _).works.linkage.trans ?_
    simp [linkage, localId]
  · rw [ha, if_pos hr]
    refine (transmits_takenOver _ _ _ _).works.linkage.trans ?_
    have hg := c.replica.goesOn_takeSyncFor socket.id
    have hends := congrArg (List.map Prod.fst) hmap
    simp only [List.map_map, Function.comp_def, List.map_append, List.map_cons, List.map_nil]
      at hends
    simp only [linkage, localId, hg.localId, hg.peers, hends]

theorem attach_fst (c : Chain) (socket : PeerSocket) :
    (c.attach socket).1 = c.objection socket.id := by
  rcases c.attach_cases socket with ⟨refusal, hr, ha⟩ | ⟨hr, connections, due, -, ha⟩
  · rw [ha, hr]
  · rw [ha, hr]

theorem connections_updateSocket (c : Chain) (n : Nat) (change : PeerSocket → PeerSocket) :
    (c.updateSocket n change).connections = c.connections.modify n change := by
  simp only [updateSocket]
  cases hs : c.connections[n]? with
  | none => simp [hs, List.modify_eq_set_getElem?]
  | some s => simp [remind, hs, List.modify_eq_set_getElem?]

/-- A connection that is refused is closed, and one that is taken is left as it is. -/
theorem closed_attach (c : Chain) (socket : PeerSocket)
    (h : ∀ n, c.sockets[socket.id]? = some n → n < c.connections.length) :
    ((c.attach socket).2.connections.map (·.closed))[c.connections.length]? =
      some ((c.attach socket).1.isSome || socket.closed) := by
  rw [attach_fst]
  rcases c.attach_cases socket with ⟨refusal, hr, ha⟩ | ⟨hr, connections, due, hmap, ha⟩
  · rw [ha, hr]
    simp [connections_updateSocket, PeerSocket.stopReading]
  · have hlast : connections[c.connections.length]?.map (fun s => (s.id, s.closed)) =
        some (socket.id, socket.closed) := by
      rw [← List.getElem?_map, hmap]
      simp
    obtain ⟨s, hs, hsocket⟩ := Option.map_eq_some_iff.mp hlast
    have hclosed : s.closed = socket.closed := (Prod.mk.inj hsocket).2
    rw [ha, hr]
    cases ho : c.sockets[socket.id]? with
    | none =>
        simp [remind, closeAll, connections_updateSocket, hs, PeerSocket.startReading, hclosed]
    | some n =>
        have hne := Nat.ne_of_lt (h n ho)
        simp [remind, closeAll, connections_updateSocket, hs, PeerSocket.startReading, hclosed, hne]

/-- Only the connections of members stay in use when the members are replaced. -/
theorem sockets_setMembers_iff {members : List NodeId} {id : NodeId} {n : Nat} :
    (c.setMembers members).sockets[id]? = some n ↔ c.sockets[id]? = some n ∧ id ∈ members := by
  obtain ⟨connections, due, woken, -, hs⟩ := c.setMembers_cases members
  rw [hs]
  refine (getElem?_foldl_insert (Std.ExtTreeMap.distinct_keys_toList.filter _)).trans ?_
  rw [List.mem_filter, Std.ExtTreeMap.mem_toList_iff_getElem?_eq_some]
  simp

theorem ends_setMembers (c : Chain) (members : List NodeId) :
    (c.setMembers members).linkage.ends = c.linkage.ends := by
  obtain ⟨connections, due, woken, hmap, hs⟩ := c.setMembers_cases members
  rw [hs]
  exact hmap

/-- No connection is in use once a chain was shut down. -/
theorem linkage_shutdown (h : c.shutDown → c.sockets = ∅) :
    c.shutdown.linkage = { c.linkage with shutDown := true, sockets := ∅ } := by
  cases hd : c.shutDown with
  | false =>
      obtain ⟨connections, due, hmap, hs⟩ := shutdown_cases hd
      simp [hs, linkage, localId, hmap]
  | true => simp [shutdown, linkage, h hd, hd]

/-! ### Histories -/

/-- What a chain meets from outside that concerns its connections. -/
inductive Contact where
  /-- A connection is offered. -/
  | attach (socket : PeerSocket)
  /-- A connection has ended. -/
  | closed (connection : Nat)
  | setMembers (members : List NodeId)
  | shutdown

/-- What the chain makes of it. -/
def meet (c : Chain) : Contact → Chain
  | .attach socket => (c.attach socket).2
  | .closed connection => c.connectionClosed connection
  | .setMembers members => c.setMembers members
  | .shutdown => c.shutdown

/-- Chains that have met something, in this order, while they did their work. -/
inductive History (localId : NodeId) : List Contact → Chain → Prop where
  | fresh (serial : Nat) (shard : ShardId) (config : ChainConfig) (signer : Signer)
      (pipeline : Option Pipeline) :
      History localId [] (.fresh serial shard localId config signer pipeline)
  | meet {met : List Contact} {c : Chain} (contact : Contact) :
      History localId met c → History localId (met ++ [contact]) (c.meet contact)
  | perform {met : List Contact} {c : Chain} (chore : Chore) :
      History localId met c → History localId met (c.perform chore)
  /-- Reading a connection may find that it has ended. -/
  | read {met : List Contact} {c : Chain} (n : Nat) :
      History localId met c →
        History localId (met ++ if c.losing n then [.closed n] else []) (c.read n)

/-- Whom the connections are to that were offered, in order. -/
def offered (met : List Contact) : List NodeId :=
  met.filterMap fun
    | .attach socket => some socket.id
    | _ => none

/-- The members that were named last. -/
def named (met : List Contact) : List NodeId :=
  met.foldl (fun members contact =>
    match contact with
    | .setMembers members => members
    | _ => members) []

/-- Whether a connection to a node is taken. -/
structure Takes (localId : NodeId) (met : List Contact) (id : NodeId) : Prop where
  member : id ∈ named met
  other : id ≠ localId
  lasting : .shutdown ∉ met

/-- Whether a connection to a member is no longer in use after this. -/
def Contact.Ends (id : NodeId) (n : Nat) : Contact → Prop
  | .attach socket => socket.id = id
  | .closed connection => connection = n
  | .setMembers members => id ∉ members
  | .shutdown => True

/-- The connection is the last one that was taken for the member, and since then neither its own end
was reported, nor was the member dropped or the chain shut down. -/
def InUse (localId : NodeId) (met : List Contact) (id : NodeId) (n : Nat) : Prop :=
  ∃ before socket after, met = before ++ .attach socket :: after ∧ socket.id = id ∧
    n = (offered before).length ∧ Takes localId before id ∧ ∀ contact ∈ after, ¬contact.Ends id n

section Spec

variable {l id : NodeId} {n : Nat} {met before after : List Contact} {contact : Contact}

@[simp] theorem offered_concat : offered (met ++ [contact]) =
    offered met ++ (match contact with | .attach socket => [socket.id] | _ => []) := by
  cases contact <;> simp [offered]

@[simp] theorem named_concat : named (met ++ [contact]) =
    match contact with | .setMembers members => members | _ => named met := by
  cases contact <;> simp [named]

theorem Takes.attach (h : Takes l met id) (socket : PeerSocket) :
    Takes l (met ++ [.attach socket]) id :=
  ⟨by simpa using h.member, h.other, by simpa using h.lasting⟩

theorem Takes.concat (h : Takes l met id) (hc : ¬contact.Ends id n) :
    Takes l (met ++ [contact]) id := by
  cases contact with
  | attach socket => exact h.attach socket
  | closed connection => exact ⟨by simpa using h.member, h.other, by simpa using h.lasting⟩
  | setMembers members =>
      exact ⟨by simpa [Contact.Ends] using hc, h.other, by simpa using h.lasting⟩
  | shutdown => exact absurd trivial hc

/-- For as long as a connection is in use, another one for its member would be taken. -/
theorem Takes.append (h : Takes l before id) (hc : ∀ contact ∈ after, ¬contact.Ends id n) :
    Takes l (before ++ after) id := by
  induction after generalizing before with
  | nil => rwa [List.append_nil]
  | cons contact rest ih =>
      rw [List.forall_mem_cons] at hc
      rw [List.append_cons]
      exact ih (h.concat hc.1) hc.2

theorem InUse.takes (h : InUse l met id n) : Takes l met id := by
  obtain ⟨before, socket, after, rfl, rfl, rfl, ht, hc⟩ := h
  rw [List.append_cons]
  exact (ht.attach socket).append hc

theorem InUse.offered (h : InUse l met id n) : (offered met)[n]? = some id := by
  obtain ⟨before, socket, after, rfl, rfl, rfl, -, -⟩ := h
  simp [Chain.offered]

/-- What is in use was in use before and goes on, or has just been taken. -/
theorem inUse_concat : InUse l (met ++ [contact]) id n ↔
    InUse l met id n ∧ ¬contact.Ends id n ∨
      ∃ socket, contact = .attach socket ∧ socket.id = id ∧ n = (offered met).length ∧
        Takes l met id := by
  constructor
  · rintro ⟨before, socket, after, he, hid, hn, ht, hc⟩
    -- the last contact is the offer itself, or comes after it
    rcases List.eq_nil_or_concat after with rfl | ⟨after, last, rfl⟩
    · obtain ⟨rfl, hl⟩ := List.append_inj' he rfl
      cases hl
      exact .inr ⟨socket, rfl, hid, hn, ht⟩
    · rw [List.concat_eq_append, ← List.cons_append, ← List.append_assoc] at he
      obtain ⟨rfl, hl⟩ := List.append_inj' he rfl
      cases hl
      refine .inl ⟨⟨before, socket, after, rfl, hid, hn, ht, fun d hd => hc d ?_⟩, hc contact ?_⟩
      · simp [hd]
      · simp
  · rintro (⟨⟨before, socket, after, rfl, hid, hn, ht, hc⟩, hl⟩ | ⟨socket, rfl, hid, hn, ht⟩)
    · refine ⟨before, socket, after ++ [contact], by simp, hid, hn, ht, fun d hd => ?_⟩
      rcases List.mem_append.mp hd with hd | hd
      · exact hc d hd
      · exact List.mem_singleton.mp hd ▸ hl
    · exact ⟨met, socket, [], rfl, hid, hn, ht, by simp⟩

end Spec

/-! ### The chain and what it has met -/

/-- A chain is linked as what it has met says. -/
structure Linkage.Matches (k : Linkage) (l : NodeId) (met : List Contact) : Prop where
  localId : k.localId = l
  peers : ∀ id, k.peers.contains id ↔ id ∈ named met ∧ id ≠ l
  shutDown : k.shutDown ↔ .shutdown ∈ met
  ends : k.ends = offered met
  sockets : ∀ id n, k.sockets[id]? = some n ↔ InUse l met id n

variable {l : NodeId} {met : List Contact}

theorem objection_eq_none_iff (h : c.linkage.Matches l met) {id : NodeId} :
    c.objection id = none ↔ Takes l met id := by
  have hd : c.shutDown ↔ .shutdown ∈ met := h.shutDown
  have hp : c.replica.peers.contains id ↔ id ∈ named met ∧ id ≠ l := h.peers id
  have ht : Takes l met id ↔ (id ∈ named met ∧ id ≠ l) ∧ .shutdown ∉ met :=
    ⟨fun ⟨hm, ho, hs⟩ => ⟨⟨hm, ho⟩, hs⟩, fun ⟨⟨hm, ho⟩, hs⟩ => ⟨hm, ho, hs⟩⟩
  rw [ht, ← hp, ← hd]
  simp only [objection]
  split
  case isTrue hs => simp [hs]
  case isFalse hs => split <;> simp_all

/-- The number of connections so far. -/
theorem length_connections (h : c.linkage.Matches l met) :
    c.connections.length = (offered met).length := by
  rw [← h.ends]
  exact (List.length_map ..).symm

theorem matches_attach (h : c.linkage.Matches l met) (socket : PeerSocket) :
    (c.attach socket).2.linkage.Matches l (met ++ [.attach socket]) := by
  have ho : c.objection socket.id = none ↔ Takes l met socket.id := objection_eq_none_iff h
  rw [linkage_attach]
  refine ⟨h.localId, by simpa using h.peers, by simpa using h.shutDown, by simp [h.ends],
    fun id n => ?_⟩
  have hs : c.sockets[id]? = some n ↔ InUse l met id n := h.sockets id n
  rw [inUse_concat, ← length_connections h, ← hs]
  simp only [Contact.Ends, Contact.attach.injEq]
  split
  case isTrue hn =>
    rw [getElem?_insert_eq]
    rw [ho] at hn
    grind
  case isFalse hn =>
    rw [ho] at hn
    -- a node that is refused has no connection in use that could be replaced
    have ht : c.sockets[id]? = some n → Takes l met id := fun hu => (hs.mp hu).takes
    grind

theorem matches_connectionClosed (h : c.linkage.Matches l met) (n : Nat) :
    (c.connectionClosed n).linkage.Matches l (met ++ [.closed n]) := by
  have hends (id : NodeId) (m : Nat) (hu : c.linkage.sockets[id]? = some m) :
      c.linkage.ends[m]? = some id := by
    rw [h.ends]
    exact ((h.sockets id m).mp hu).offered
  rw [linkage_connectionClosed, Linkage.lose_rest]
  refine ⟨h.localId, by simpa using h.peers, by simpa using h.shutDown, by simp [h.ends],
    fun id m => ?_⟩
  rw [Linkage.sockets_lose_iff hends, h.sockets, inUse_concat]
  simp [Contact.Ends]

theorem matches_setMembers (h : c.linkage.Matches l met) (members : List NodeId) :
    (c.setMembers members).linkage.Matches l (met ++ [.setMembers members]) := by
  have hc := c.tableView_setMembers members
  simp only [tableView, TableView.mk.injEq] at hc
  obtain ⟨-, -, hl, hp, -, hd⟩ := hc
  refine ⟨hl.trans h.localId, fun id => ?_, ?_, ?_, fun id n => ?_⟩
  · have hlocal : c.replica.localId = l := h.localId
    show (c.setMembers members).replica.peers.contains id ↔ _
    rw [hp, Replica.contains_peers_setMembers, hlocal]
    simp
  · have hs : c.shutDown ↔ .shutdown ∈ met := h.shutDown
    show (c.setMembers members).shutDown ↔ _
    rw [hd, hs]
    simp
  · rw [ends_setMembers, h.ends]
    simp
  · rw [inUse_concat, ← h.sockets]
    refine sockets_setMembers_iff.trans ?_
    simp [Contact.Ends, linkage]

theorem sockets_eq_empty (h : c.linkage.Matches l met) (hs : .shutdown ∈ met) : c.sockets = ∅ := by
  refine Std.ExtTreeMap.ext_getElem? fun id => ?_
  cases hu : c.sockets[id]? with
  | none => simp
  | some n => exact absurd hs ((h.sockets id n).mp hu).takes.lasting

theorem matches_shutdown (h : c.linkage.Matches l met) :
    c.shutdown.linkage.Matches l (met ++ [.shutdown]) := by
  rw [linkage_shutdown fun hs => sockets_eq_empty h (h.shutDown.mp hs)]
  refine ⟨h.localId, by simpa using h.peers, by simp, by simp [h.ends], fun id n => ?_⟩
  rw [inUse_concat]
  simp [Contact.Ends]

theorem matches_meet (h : c.linkage.Matches l met) (contact : Contact) :
    (c.meet contact).linkage.Matches l (met ++ [contact]) := by
  cases contact with
  | attach socket => exact matches_attach h socket
  | closed n => exact matches_connectionClosed h n
  | setMembers members => exact matches_setMembers h members
  | shutdown => exact matches_shutdown h

theorem History.matches (h : History l met c) : c.linkage.Matches l met := by
  induction h with
  | fresh serial shard config signer pipeline =>
      refine ⟨rfl, fun id => ?_, by simp [linkage, Chain.fresh], rfl, fun id n => ?_⟩
      · simp [linkage, Chain.fresh, Replica.fresh, named]
      · simp [linkage, Chain.fresh, InUse]
  | meet contact _ ih => exact matches_meet ih contact
  | perform chore _ ih => rwa [linkage_perform]
  | read n _ ih =>
      rw [linkage_read]
      split
      · exact matches_connectionClosed ih n
      · rwa [List.append_nil]

theorem mem_peers_iff {id : NodeId} : id ∈ c.peers ↔ c.replica.peers.contains id :=
  Replica.mem_toList_iff

/-- **A chain uses the connections of its members, and one of each.** Whatever a chain has met, and
whatever it has done in between: it has connections in use for peers only. The one in use for a
member is the last one that was taken for it, unless the end of that very one was reported, the
member was dropped or the chain was shut down since. A connection that is offered next is refused,
and closed, exactly if the chain was shut down or the node is no peer. Once the chain was shut down,
no connection is in use any more. -/
theorem History.attachments (h : History l met c) :
    (∀ id, c.hasSocket id → id ∈ c.peers) ∧
      (∀ id n, c.sockets[id]? = some n ↔ InUse l met id n) ∧
      (∀ id, id ∈ c.peers ↔ id ∈ named met ∧ id ≠ l) ∧
      (∀ socket : PeerSocket,
        ((c.attach socket).1.isSome ↔ .shutdown ∈ met ∨ socket.id ∉ c.peers) ∧
        ∃ s, (c.attach socket).2.connections[(offered met).length]? = some s ∧ s.id = socket.id ∧
          s.closed = ((c.attach socket).1.isSome || socket.closed)) ∧
      (.shutdown ∈ met → c.sockets = ∅) := by
  have hk := h.matches
  have hsockets : ∀ id n, c.sockets[id]? = some n ↔ InUse l met id n := hk.sockets
  have hpeers (id : NodeId) : id ∈ c.peers ↔ id ∈ named met ∧ id ≠ l :=
    mem_peers_iff.trans (hk.peers id)
  refine ⟨fun id hid => ?_, hsockets, hpeers, fun socket => ⟨?_, ?_⟩, sockets_eq_empty hk⟩
  · obtain ⟨n, hn⟩ := contains_iff_getElem?.mp hid
    have ht := ((hsockets id n).mp hn).takes
    exact (hpeers id).mpr ⟨ht.member, ht.other⟩
  · rw [attach_fst, Option.isSome_iff_ne_none, ne_eq, objection_eq_none_iff hk, hpeers]
    grind [Takes]
  · have hnew : (c.attach socket).2.linkage.ends[(offered met).length]? = some socket.id := by
      rw [(matches_attach hk socket).ends]
      simp
    obtain ⟨s, hs, hid⟩ := Option.map_eq_some_iff.mp (List.getElem?_map.symm.trans hnew)
    have hclosed := c.closed_attach socket fun n hn => by
      rw [length_connections hk]
      exact (List.getElem?_eq_some_iff.mp ((hsockets _ n).mp hn).offered).1
    rw [length_connections hk, List.getElem?_map, hs, Option.map_some, Option.some.injEq] at hclosed
    exact ⟨s, hs, hid, hclosed⟩

/-- The connection to `b` is replaced, its late end changes nothing, `d` is refused, and the one to
`c` goes with the member. -/
theorem attachments_of_replaced :
    let offer (name : String) : Contact := .attach (.fresh ⟨name⟩ 64)
    let met := [.setMembers [⟨"b"⟩, ⟨"c"⟩], offer "b", offer "b", .closed 0, offer "d", offer "c",
      .setMembers [⟨"b"⟩]]
    ∃ c, History ⟨"a"⟩ met c ∧ c.sockets.toList = [(⟨"b"⟩, 1)] ∧
      c.connections.map (·.closed) = [true, false, true, true] ∧ InUse ⟨"a"⟩ met ⟨"b"⟩ 1 ∧
      ¬InUse ⟨"a"⟩ met ⟨"b"⟩ 0 ∧ ¬InUse ⟨"a"⟩ met ⟨"c"⟩ 3 := by
  intro offer met
  have start := @History.fresh ⟨"a"⟩ 0 ⟨0⟩ .default (.labelled ⟨"a"⟩) none
  have h := ((((((start.meet (.setMembers [⟨"b"⟩, ⟨"c"⟩])).meet (offer "b")).meet (offer "b")).meet
    (.closed 0)).meet (offer "d")).meet (offer "c")).meet (.setMembers [⟨"b"⟩])
  have hsockets := h.attachments.2.1
  refine ⟨_, h, by decide +kernel, by decide +kernel, (hsockets _ _).mp ?_,
    (hsockets _ _).not.mp ?_, (hsockets _ _).not.mp ?_⟩
  · decide +kernel
  · decide +kernel
  · decide +kernel

end Chain

end ShardGossip
