import ShardGossip.Proofs.Chronicle
import ShardGossip.Proofs.Delivery

/-!
# ShardGossip.Proofs.Precedence

**What is said about events, in the order in which their origin sealed them.** One event is
`Earlier` than another if the same member sealed it before. Diaries are `Ordered` if no member says
anything about an event to another without having said it about the earlier ones (`Ordered.said`),
and votes for no event without having closed the earlier ones (`Ordered.voted`).

The order among packets is one of lists: an element is `Preceded` if whatever is to stand before it
does, or is already done with.
-/

namespace ShardGossip

/-! ### Lists in which everything is preceded -/

/-- Whatever is to stand before an element of the list stands there, or is done. -/
def Preceded {α : Type} (before : α → α → Prop) (done : α → Prop) : List α → Prop
  | [] => True
  | a :: rest => (∀ b, before b a → done b) ∧ Preceded before (fun b => done b ∨ b = a) rest

namespace Preceded

variable {α : Type} {before before' : α → α → Prop} {done done' : α → Prop} {l l' : List α}

theorem mono (h : Preceded before done l) (hb : ∀ a ∈ l, ∀ b, before' b a → before b a)
    (hd : ∀ b, done b → done' b) : Preceded before' done' l := by
  induction l generalizing done done' with
  | nil => trivial
  | cons a rest ih =>
      refine ⟨fun b hba => hd b (h.1 b (hb a List.mem_cons_self b hba)), ?_⟩
      exact ih h.2 (fun c hc => hb c (List.mem_cons_of_mem _ hc)) fun b => Or.imp_left (hd b)

theorem append :
    Preceded before done (l ++ l') ↔
      Preceded before done l ∧ Preceded before (fun b => done b ∨ b ∈ l) l' := by
  induction l generalizing done with
  | nil => simp [Preceded]
  | cons a rest ih =>
      rw [List.cons_append, Preceded, Preceded, ih, and_assoc]
      simp only [List.mem_cons, or_assoc]

theorem of_done (h : ∀ a ∈ l, ∀ b, before b a → done b) : Preceded before done l := by
  induction l generalizing done with
  | nil => trivial
  | cons a rest ih =>
      refine ⟨h a List.mem_cons_self, ih fun c hc b hbc => ?_⟩
      exact Or.inl (h c (List.mem_cons_of_mem _ hc) b hbc)

theorem done_or_mem (h : Preceded before done l) {a b : α} (ha : a ∈ l) (hb : before b a) :
    done b ∨ b ∈ l := by
  induction l generalizing done with
  | nil => cases ha
  | cons c rest ih =>
      rcases List.mem_cons.mp ha with rfl | ha
      · exact Or.inl (h.1 b hb)
      · rcases ih h.2 ha with (hd | rfl) | hm
        · exact Or.inl hd
        · exact Or.inr List.mem_cons_self
        · exact Or.inr (List.mem_cons_of_mem _ hm)

end Preceded

/-! ### Topics -/

/-- What a packet can say about an event. -/
inductive Saying where
  | proposal
  | ack
  | announcement

/-- An event and what is said about it. -/
structure Topic where
  saying : Saying
  proof : Proof

/-- The topic of a packet, if its place among other packets matters. -/
def Packet.topic? : Packet → Option Topic
  | .propose _ event => some ⟨.proposal, event.proof⟩
  | .ack p => some ⟨.ack, p⟩
  | .finalize p => some ⟨.announcement, p⟩
  | _ => none

/-- The member is done with what another has said. -/
def Topic.Done (d : Diary) (r : Replica) (src : NodeId) : Topic → Prop
  | ⟨.proposal, p⟩ => (src, Packet.ack p) ∈ d.sent
  | ⟨.ack, p⟩ => Taken d r src (.ack p)
  | ⟨.announcement, p⟩ => Taken d r src (.finalize p)

/-- The topics of packets. -/
def topics (packets : List Packet) : List Topic :=
  packets.filterMap Packet.topic?

theorem mem_topics {packets : List Packet} {t : Topic} :
    t ∈ topics packets ↔ ∃ packet ∈ packets, packet.topic? = some t :=
  List.mem_filterMap

@[simp] theorem topics_append (l l' : List Packet) : topics (l ++ l') = topics l ++ topics l' :=
  List.filterMap_append

theorem Topic.done_of_taken {d : Diary} {r : Replica} {src : NodeId} {packet : Packet} {t : Topic}
    (ht : packet.topic? = some t) (h : Taken d r src packet) : t.Done d r src := by
  cases packet with
  | propose signature event =>
      obtain rfl := Option.some.inj ht
      exact h
  | ack p =>
      obtain rfl := Option.some.inj ht
      exact h
  | finalize p =>
      obtain rfl := Option.some.inj ht
      exact h
  | _ => cases ht

theorem Packet.isBallot_of_topic {packet : Packet} {t : Topic} (h : packet.topic? = some t) :
    packet.isBallot = false := by
  cases packet with
  | vote k signature p => cases h
  | _ => rfl

namespace Diaries

variable {members : List NodeId} {H H' : Diaries} {p p' : Proof}

/-! ### Earlier events -/

/-- Somebody has sealed an event with this proof. -/
def Recorded (H : Diaries) (p : Proof) : Prop :=
  ∃ q, ∃ e ∈ (H q).sealed, e.proof = p

/-- One member has sealed events with both proofs, one before the other. -/
def Earlier (H : Diaries) (p p' : Proof) : Prop :=
  ∃ q, ∃ e ∈ (H q).sealed, ∃ e' ∈ (H q).sealed,
    e.timestamp < e'.timestamp ∧ e.proof = p ∧ e'.proof = p'

/-- The one is to be said before the other. -/
def Before (H : Diaries) (t t' : Topic) : Prop :=
  t.saying = t'.saying ∧ H.Earlier t.proof t'.proof

theorem Earlier.mono (h : H.Earlier p p') (hH : H.Extend H') : H'.Earlier p p' := by
  obtain ⟨q, e, he, e', he', h⟩ := h
  exact ⟨q, e, (hH q).sealed.subset he, e', (hH q).sealed.subset he', h⟩

theorem Earlier.ne (hC : Consistent members H) (h : H.Earlier p p') : p ≠ p' := by
  obtain ⟨q, e, he, e', he', hlt, rfl, rfl⟩ := h
  intro hp
  rw [(hC.eq_of_proof he he' hp).2] at hlt
  exact Nat.lt_irrefl _ hlt

/-- Whatever is earlier than a member's event is the member's. -/
theorem Earlier.sealed (hC : Consistent members H) (h : H.Earlier p p') {m : NodeId} {e' : Event}
    (he' : e' ∈ (H m).sealed) (hp : e'.proof = p') : ∃ e ∈ (H m).sealed, e.proof = p := by
  obtain ⟨q, e, he, e'', he'', -, hep, hp''⟩ := h
  obtain ⟨rfl, -⟩ := hC.eq_of_proof he' he'' (hp.trans hp''.symm)
  exact ⟨e, he, hep⟩

/-- What is sealed later is not earlier than anything. -/
theorem Earlier.of_extend (hC : Consistent members H') (hH : H.Extend H') (hp : H.Recorded p')
    (h : H'.Earlier p p') : H.Earlier p p' := by
  obtain ⟨q₀, e₀, he₀, rfl⟩ := hp
  obtain ⟨q, e, he, e', he', hlt, rfl, hp⟩ := h
  obtain ⟨rfl, rfl⟩ := hC.eq_of_proof ((hH q₀).sealed.subset he₀) he' hp.symm
  obtain ⟨new, hn⟩ := (hH q₀).sealed
  rw [← hn] at he
  refine ⟨q₀, e, ?_, e₀, he₀, hlt, rfl, rfl⟩
  rcases List.mem_append.mp he with he | he
  · exact he
  · have ht := hC.times q₀
    rw [← hn] at ht
    exact absurd (List.pairwise_append.mp ht).2.2 fun h =>
      Nat.lt_asymm hlt (h e₀ he₀ e he)

theorem Before.of_extend {t t' : Topic} (hC : Consistent members H') (hH : H.Extend H')
    (hp : H.Recorded t'.proof) (h : H'.Before t t') : H.Before t t' :=
  ⟨h.1, h.2.of_extend hC hH hp⟩

theorem recorded_of_knows (hC : Consistent members H) {m : NodeId} (h : (H m).Knows p) :
    H.Recorded p := by
  rcases h with ⟨e, he, hp⟩ | ⟨target, ht⟩
  · exact ⟨m, e, he, hp⟩
  · obtain ⟨e, he, hp⟩ := hC.honest ht
    exact ⟨target, e, he, hp⟩

theorem recorded_of_vote (hC : Consistent members H) {v : NodeId} {k : Nat}
    (h : (H v).votes[k]? = some p) : H.Recorded p :=
  recorded_of_knows hC (hC.votable h v (hC.voter h))

theorem recorded_of_topic (hC : Consistent members H) {src dst : NodeId} {packet : Packet}
    {t : Topic} (h : (dst, packet) ∈ (H src).sent) (ht : packet.topic? = some t) :
    H.Recorded t.proof := by
  have honest := hC.honest h
  cases packet with
  | propose signature event =>
      obtain rfl := Option.some.inj ht
      exact ⟨src, event, honest, rfl⟩
  | ack p =>
      obtain rfl := Option.some.inj ht
      exact ⟨dst, honest⟩
  | finalize p =>
      obtain rfl := Option.some.inj ht
      exact ⟨src, honest.1⟩
  | _ => cases ht

/-- The origin of the event has told everyone that it is announced. -/
def Published (members : List NodeId) (H : Diaries) (p : Proof) : Prop :=
  ∃ q, (∃ e ∈ (H q).sealed, e.proof = p) ∧
    ∀ q' ∈ members, q' ≠ q → (q', Packet.finalize p) ∈ (H q).sent

theorem Published.mono (h : H.Published members p) (hH : H.Extend H') : H'.Published members p := by
  obtain ⟨q, ⟨e, he, hp⟩, hs⟩ := h
  exact ⟨q, ⟨e, (hH q).sealed.subset he, hp⟩, fun q' hq hne => (hH q).sent.subset (hs q' hq hne)⟩

theorem Published.sent (hC : Consistent members H) (h : H.Published members p) {m : NodeId}
    (hm : ∃ e ∈ (H m).sealed, e.proof = p) {q : NodeId} (hq : q ∈ members) (hne : q ≠ m) :
    (q, Packet.finalize p) ∈ (H m).sent := by
  obtain ⟨q₀, ⟨e₀, he₀, hp₀⟩, hs⟩ := h
  obtain ⟨e, he, hp⟩ := hm
  obtain ⟨rfl, -⟩ := hC.eq_of_proof he he₀ (hp.trans hp₀.symm)
  exact hs q hq hne

end Diaries

/-! ### Diaries in order -/

/-- What the members have said and voted for keeps the order of sealing. -/
structure Ordered (members : List NodeId) (H : Diaries) : Prop where
  /-- Whoever votes for an event has closed the earlier ones. -/
  voted : ∀ {v k p p'}, H.Earlier p p' → (H v).votes[k]? = some p' → p ∈ (H v).closed k
  said : ∀ src dst, 
    Preceded H.Before (fun _ => False) (topics (Network.packetsFor dst (H src).sent))

namespace Ordered

variable {members : List NodeId} {H : Diaries} {m : NodeId} {d : Diary} {p : Proof}

theorem empty (members : List NodeId) : Ordered members fun _ => .empty where
  voted _ h := by cases h
  said _ _ := trivial

theorem recorded_of_mem (hC : Consistent members H) {src dst : NodeId} {t : Topic}
    (ht : t ∈ topics (Network.packetsFor dst (H src).sent)) : H.Recorded t.proof := by
  obtain ⟨packet, hp, ht⟩ := mem_topics.mp ht
  exact Diaries.recorded_of_topic hC (Network.mem_packetsFor.mp hp) ht

/-- A diary may be continued by votes for events with closed predecessors, and by packets whose
predecessors were sent. -/
theorem write (h : Ordered members H) (hC : Consistent members H)
    (hC' : Consistent members (H.write m d)) (hx : (H m).Extends d)
    (hv : ∀ {k : Nat} {p' : Proof}, d.votes[k]? = some p' → (H m).votes[k]? = some p' ∨
      H.Recorded p' ∧ ∀ p, H.Earlier p p' → p ∈ (H m).closed k)
    {new : List (NodeId × Packet)} (hs : d.sent = (H m).sent ++ new)
    (hn : ∀ {dst packet t}, (dst, packet) ∈ new → packet.topic? = some t →
      ∀ t', (H.write m d).Before t' t →
        ∃ earlier, (dst, earlier) ∈ (H m).sent ∧ earlier.topic? = some t') :
    Ordered members (H.write m d) := by
  have hH : H.Extend (H.write m d) := Diaries.extend_write hx
  have hself := Diaries.write_self H m d
  constructor
  case voted =>
    intro v k p p' he hv'
    rcases H.write_cases m d v with ⟨rfl, hd⟩ | hd <;> rw [hd] at hv' ⊢
    · rcases hv hv' with ho | ⟨hrec, hc⟩
      · have he := he.of_extend hC' hH (Diaries.recorded_of_vote hC ho)
        exact hx.mem_closed (Nat.le_refl _) (h.voted he ho)
      · exact hx.mem_closed (Nat.le_refl _) (hc p (he.of_extend hC' hH hrec))
    · exact h.voted (he.of_extend hC' hH (Diaries.recorded_of_vote hC hv')) hv'
  case said =>
    intro src dst
    have old : Preceded (H.write m d).Before (fun _ => False)
        (topics (Network.packetsFor dst (H src).sent)) :=
      (h.said src dst).mono
        (fun t ht t' hb => hb.of_extend hC' hH (recorded_of_mem hC ht)) fun _ => id
    rcases H.write_cases m d src with ⟨rfl, hd⟩ | hd <;> rw [hd]
    · rw [hs, Network.packetsFor_append, topics_append, Preceded.append]
      refine ⟨old, .of_done fun t ht t' hb => Or.inr ?_⟩
      obtain ⟨packet, hp, ht⟩ := mem_topics.mp ht
      obtain ⟨earlier, he, ht'⟩ := hn (Network.mem_packetsFor.mp hp) ht t' hb
      exact mem_topics.mpr ⟨earlier, Network.mem_packetsFor.mpr he, ht'⟩
    · exact old

end Ordered

end ShardGossip
