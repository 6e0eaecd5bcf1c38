import ShardGossip.Proofs.Orderly
import ShardGossip.Proofs.Quiescence

/-!
# ShardGossip.Proofs.OriginOrder

**Every member commits the events of an origin in the order in which the origin sealed them**, if
the links deliver in order and lose nothing (`origin_order`). What is under way is then in line: a
packet about an event stands behind those about the earlier events of the same origin, unless its
receiver is done with them (`InOrder.inLine`). So each member hears of events in order, and stays in
order itself.
-/

namespace ShardGossip

open Network

/-- Whether a move takes packets off the links in order, and loses none. -/
def Network.Move.inOrder : Network.Move → Bool
  | deliver _ _ position => position = 0
  | lose .. => false
  | _ => true

theorem Network.Move.not_isLoss_of_inOrder {move : Network.Move} (h : move.inOrder) :
    move.isLoss = false := by
  cases move with
  | lose src dst position => cases h
  | _ => rfl

/-- What a member was done with it is done with after its turn. -/
theorem Turn.done {members : List NodeId} {m : NodeId} {heard : NodeId → Packet → Prop}
    {H H' : Diaries} {r : Replica} {o : Outcome} {new : List Event} {src : NodeId} {t : Topic}
    (h : Turn members m heard H r H' o new) (ht : t.Done (H m) r src) :
    t.Done (H' m) o.replica src := by
  have taken (packet : Packet) (hn : packet.isBallot = false) (ht : Taken (H m) r src packet) :
      Taken (H' m) o.replica src packet :=
    h.taken (fun hb => by rw [hn] at hb; cases hb) ht
  obtain ⟨saying, p⟩ := t
  cases saying with
  | proposal => exact (h.extend m).sent.subset ht
  | ack => exact taken (.ack p) rfl ht
  | announcement => exact taken (.finalize p) rfl ht

namespace Network

/-- A member is done with what another has said. -/
def Done (n : Network) (H : Diaries) (src dst : NodeId) (t : Topic) : Prop :=
  ∃ s, n.stations[dst]? = some s ∧ t.Done (H dst) s.replica src

/-- Everything under way is in line. -/
def InLine (n : Network) (H : Diaries) : Prop :=
  ∀ src dst, Preceded H.Before (n.Done H src dst) (topics (n.link src dst))

variable {n : Network} {before : Topic → Topic → Prop} {src dst a b : NodeId} {packet : Packet}

/-- Whoever is done with the head of a link may take it off. -/
theorem preceded_withdraw {done : NodeId → NodeId → Topic → Prop}
    (h : ∀ a b, Preceded before (done a b) (topics (n.link a b)))
    (hp : (n.link src dst)[0]? = some packet)
    (hd : ∀ {t}, packet.topic? = some t → done src dst t) (a b : NodeId) :
    Preceded before (done a b) (topics ((n.withdraw src dst 0).link a b)) := by
  unfold withdraw
  rw [link_setLink]
  split
  · rename_i hab
    obtain ⟨rfl, rfl⟩ := hab
    obtain ⟨rest, hr⟩ : ∃ rest, n.link src dst = [packet] ++ rest := by
      cases hl : n.link src dst with
      | nil =>
          rw [hl] at hp
          cases hp
      | cons first rest =>
          rw [hl] at hp
          exact ⟨rest, by rw [← Option.some.inj hp]; rfl⟩
    have hl := h src dst
    rw [hr, topics_append, Preceded.append] at hl
    rw [hr]
    refine hl.2.mono (fun _ _ _ => id) fun t ht => ht.elim id fun hm => ?_
    obtain ⟨p, hmem, ht⟩ := mem_topics.mp hm
    exact hd (List.mem_singleton.mp hmem ▸ ht)
  · exact h a b

end Network

namespace Chronicle

/-- A shard whose links have always been in order. -/
structure InOrder (members : List NodeId) (H : Diaries) (c : Chronicle) : Prop where
  accords : c.Accords members H
  lossless : c.network.Lossless H
  atRest : c.network.AtRest
  ordered : Ordered members H
  orderly : ∀ {id : NodeId} {s : Station}, c.network.stations[id]? = some s →
    s.replica.Orderly H id
  publishedFirst : c.PublishedFirst members H
  inLine : c.network.InLine H

namespace InOrder

variable {members : List NodeId} {H H' : Diaries} {c : Chronicle} {id src dst : NodeId}
  {s t : Station} {o : Outcome} {new : List Event} {n : Network} {packet : Packet}
  {heard : NodeId → Packet → Prop}

/-- Before a turn, no own event waits to be announced. -/
theorem quorate (h : c.InOrder members H) (hs : c.network.stations[id]? = some s) (focus : Proof) :
    s.replica.Quorate (H id) focus := by
  intro p ⟨e', he', hp⟩ hst hn hq
  have hF := h.accords.faithful hs
  obtain ⟨e, he⟩ := EventStore.contains_iff.mp hst
  have hown := hF.own_of_sealed h.accords.consistent he he' hp
  obtain ⟨q, hqp, hnot⟩ := (h.atRest hs).announcing he hown hn
  obtain ⟨e', he', hb⟩ := hq q hqp
  rw [he] at he'
  rw [← Option.some.inj he', hnot] at hb
  cases hb

/-- A member is in order when it starts to do something. -/
theorem proceeds (h : c.InOrder members H) (hs : c.network.stations[id]? = some s) (focus : Proof)
    (hsent : ∀ {src packet}, heard src packet → H.Sent members src id packet)
    (hdue : ∀ {src packet t t'}, heard src packet → packet.topic? = some t → H.Before t' t →
      t'.Done (H id) s.replica src) : Replica.Proceeds members id heard focus H s.replica where
  ordered := h.ordered
  orderly := h.orderly hs
  publishedFirst := h.publishedFirst hs
  told := h.accords.told hs
  quorate := h.quorate hs focus
  sent := hsent
  due := hdue

/-- What a member was done with before another's turn, or its own, it is done with afterwards. -/
theorem done_settle (hs : c.network.stations[id]? = some s)
    (ht : Turn members id heard H s.replica H' o new) (hst : n.stations = c.network.stations)
    {a b : NodeId} {x : Topic} (hx : c.network.Done H a b x) :
    (n.settleOutcome id t o).Done H' a b x := by
  obtain ⟨u, hu, hx⟩ := hx
  unfold Network.Done
  rw [getElem?_settleOutcome, hst]
  by_cases hid : id = b
  · subst hid
    rw [hs] at hu
    obtain rfl := Option.some.inj hu
    rw [if_pos rfl]
    exact ⟨_, rfl, ht.done hx⟩
  · rw [if_neg hid, ht.others (Ne.symm hid)]
    exact ⟨u, hu, hx⟩

/-- What a member says in its turn is in line with what is on record, hence with what is under
way. -/
theorem inLine_settle (h : c.InOrder members H) (hs : c.network.stations[id]? = some s)
    (ht : Turn members id heard H s.replica H' o new) (hst : n.stations = c.network.stations)
    (ho : Ordered members H')
    (hl : ∀ {a b packet x}, packet ∈ c.network.link a b → packet.topic? = some x →
      packet ∈ n.link a b ∨ (n.settleOutcome id t o).Done H' a b x)
    (hline : ∀ a b, Preceded H.Before ((n.settleOutcome id t o).Done H' a b) (topics (n.link a b)))
    (hold : ∀ {a b packet}, packet ∈ n.link a b → packet ∈ c.network.link a b) :
    (n.settleOutcome id t o).InLine H' := by
  intro a b
  rw [link_settleOutcome, topics_append, Preceded.append]
  refine ⟨(hline a b).mono (fun x hx y hb => ?_) fun _ hd => hd, ?_⟩
  · obtain ⟨packet, hp, hx⟩ := mem_topics.mp hx
    have hrec := Diaries.recorded_of_topic h.accords.consistent
      (h.accords.recorded (hold hp)) hx
    exact hb.of_extend ht.consistent ht.extend hrec
  · split
    · rename_i hid
      subst hid
      have hsaid := ho.said id b
      rw [ht.sent, packetsFor_append, topics_append, Preceded.append] at hsaid
      rw [ht.peers]
      refine hsaid.2.mono (fun _ _ _ hb => hb) fun x hx => ?_
      -- what was said before is under way or has been taken in
      obtain ⟨packet, hp, hx⟩ := mem_topics.mp (hx.resolve_left False.elim)
      have hnb : packet.isBallot → c.network.Remembers := fun hb => by
        rw [Packet.isBallot_of_topic hx] at hb
        cases hb
      rcases h.lossless hnb (mem_packetsFor.mp hp) with hp | ⟨u, hu, htk⟩
      · rcases hl hp hx with hp | hd
        · exact Or.inr (mem_topics.mpr ⟨packet, hp, hx⟩)
        · exact Or.inl hd
      · exact Or.inl (done_settle hs ht hst ⟨u, hu, Topic.done_of_taken hx htk⟩)
    · trivial

/-- A member's turn leaves the shard in order. -/
theorem settle (h : c.InOrder members H) (focus : Proof) (hs : c.network.stations[id]? = some s)
    (ht : Turn members id heard H s.replica H' o new) (hst : n.stations = c.network.stations)
    (hfocus : ∀ {src p}, heard src (.ack p) → p = focus)
    (hnew : ∀ e ∈ new, e.proof = focus)
    (hsent : ∀ {src packet}, heard src packet → H.Sent members src id packet)
    (hdue : ∀ {src packet t t'}, heard src packet → packet.topic? = some t → H.Before t' t →
      t'.Done (H id) s.replica src)
    (hl : ∀ {a b packet x}, packet ∈ c.network.link a b → packet.topic? = some x →
      packet ∈ n.link a b ∨ (n.settleOutcome id t o).Done H' a b x)
    (hline : ∀ a b, Preceded H.Before ((n.settleOutcome id t o).Done H' a b) (topics (n.link a b)))
    (hold : ∀ {a b packet}, packet ∈ n.link a b → packet ∈ c.network.link a b)
    (h' : (c.settle n id t o new).Accords members H')
    (hL' : (n.settleOutcome id t o).Lossless H') (hR' : (n.settleOutcome id t o).AtRest)
    (hO' : (c.settle n id t o new).PublishedFirst members H') :
    (c.settle n id t o new).InOrder members H' := by
  have hp := ht.kept (Replica.Proceeds.kept hfocus hnew) (h.proceeds hs focus hsent hdue)
  refine ⟨h', hL', hR', hp.ordered, fun {q u} hq => ?_, hO',
    h.inLine_settle hs ht hst hp.ordered hl hline hold⟩
  rcases station_of_settleOutcome hst hq with ⟨rfl, rfl⟩ | ⟨-, hq⟩
  · exact hp.orderly
  · exact (h.orderly hq).mono (h.accords.faithful hq) ht.consistent ht.extend

/-- Only the links have changed. -/
theorem relink (h : c.InOrder members H) (hst : n.stations = c.network.stations)
    (h' : ({ c with network := n } : Chronicle).Accords members H) (hL' : n.Lossless H)
    (hR' : n.AtRest)
    (hO' : ({ c with network := n } : Chronicle).PublishedFirst members H)
    (hline : ∀ a b, Preceded H.Before (c.network.Done H a b) (topics (n.link a b))) :
    ({ c with network := n } : Chronicle).InOrder members H where
  accords := h'
  lossless := hL'
  atRest := hR'
  ordered := h.ordered
  orderly hs := by
    rw [show ({ c with network := n } : Chronicle).network.stations = c.network.stations from hst]
      at hs
    exact h.orderly hs
  publishedFirst := hO'
  inLine a b := (hline a b).mono (fun _ _ _ hb => hb) fun x ⟨u, hu, hx⟩ => ⟨u, hst ▸ hu, hx⟩

/-- The head of a link is due. -/
theorem due (h : c.InOrder members H) (hp : (c.network.link src dst)[0]? = some packet)
    (hs : c.network.stations[dst]? = some s) {x y : Topic} (hx : packet.topic? = some x)
    (hb : H.Before y x) : y.Done (H dst) s.replica src := by
  have hline := h.inLine src dst
  cases hl : c.network.link src dst with
  | nil =>
      rw [hl] at hp
      cases hp
  | cons first rest =>
      rw [hl] at hp hline
      obtain rfl := Option.some.inj hp
      rw [topics, List.filterMap_cons_some hx] at hline
      obtain ⟨u, hu, hd⟩ := hline.1 y hb
      rw [hs] at hu
      exact Option.some.inj hu ▸ hd

/-- **The shard stays in order**, whatever happens to it in order. -/
theorem next (h : c.InOrder members H) {move : Move} (hi : move.inOrder)
    (hm : Moved members H c move H' (c.next move)) : (c.next move).InOrder members H' := by
  have h' := hm.accords h.accords
  have hL' := hm.lossless h.accords (Move.not_isLoss_of_inOrder hi) h.lossless
  have hR' := atRest_next h.accords h.atRest move
  have hO' := hm.publishedFirst h.publishedFirst
  generalize c.next move = c' at hm h' hL' hR' hO' ⊢
  cases hm with
  | @asked _ id s t _ o new hs _ ht =>
      refine h.settle ((new.map (·.proof)).getD "") hs ht rfl False.elim (fun e he => ?_)
        False.elim False.elim (fun hp _ => Or.inl hp) (fun a b => ?_) (fun hp => hp) h' hL' hR' hO'
      · rw [Option.mem_toList.mp he]
        rfl
      · exact (h.inLine a b).mono (fun _ _ _ hb => hb) fun x hx => done_settle hs ht rfl hx
  | @delivered src dst position packet s _ o hp hs _ ht htaken =>
      obtain rfl : position = 0 := of_decide_eq_true hi
      obtain ⟨focus, hfocus⟩ : ∃ focus, ∀ p, packet = .ack p → p = focus := by
        cases packet with
        | ack p => exact ⟨p, fun q hq => (Packet.ack.inj hq).symm⟩
        | _ => exact ⟨"", nofun⟩
      have hsent := h.accords.consistent.sent (h.accords.recorded (List.mem_of_getElem? hp))
      have hd {x : Topic} (hx : packet.topic? = some x) :
          ((c.network.withdraw src dst 0).settleOutcome dst s o).Done H' src dst x :=
        ⟨_, getElem?_settleOutcome_self .., Topic.done_of_taken hx <| htaken fun hb => by
          rw [Packet.isBallot_of_topic hx] at hb
          cases hb⟩
      refine h.settle focus hs ht rfl (fun hh => hfocus _ hh.2.symm) (fun _ he => nomatch he)
        hsent.of_hearing (fun hh hx hb => ?_) (fun hm hx => ?_) ?_ mem_link_of_withdraw h' hL' hR'
        hO'
      · obtain ⟨rfl, rfl⟩ := hh
        exact h.due hp hs hx hb
      · rcases mem_link_withdraw hp hm with hm | ⟨rfl, rfl, rfl⟩
        · exact Or.inl hm
        · exact Or.inr (hd hx)
      · refine preceded_withdraw (fun a b => ?_) hp hd
        exact (h.inLine a b).mono (fun _ _ _ hb => hb) fun x hx =>
          done_settle (n := c.network.withdraw src dst 0) hs ht rfl hx
  | @refused src dst position packet s _ hp hs _ htaken =>
      obtain rfl : position = 0 := of_decide_eq_true hi
      refine h.relink rfl h' hL' hR' hO' (preceded_withdraw h.inLine hp fun hx => ?_)
      exact ⟨s, hs, Topic.done_of_taken hx htaken⟩
  | @repeated src dst position =>
      refine h.relink rfl h' hL' hR' hO' fun a b => ?_
      rw [link_send, topics_append, Preceded.append]
      refine ⟨h.inLine a b, ?_⟩
      split
      · rename_i hab
        obtain ⟨rfl, rfl⟩ := hab
        refine .of_done fun x hx y hb => (h.inLine src dst).done_or_mem ?_ hb
        obtain ⟨packet, hp, hx⟩ := mem_topics.mp hx
        exact mem_topics.mpr ⟨packet, List.mem_of_getElem? (Option.mem_toList.mp hp), hx⟩
      · trivial
  | lost => cases hi
  | nothing _ => exact h

end InOrder

theorem inOrder_founded (shard : ShardId) (members : List NodeId) (signers : NodeId → Signer) :
    (founded shard members signers).InOrder members fun _ => .empty where
  accords := accords_founded shard members signers
  lossless := lossless_founded shard members signers
  atRest := atRest_founded shard members signers
  ordered := .empty members
  orderly {id s} hs := by
    have hn {p p' : Proof} : ¬ Diaries.Earlier (fun _ => Diary.empty) p p' :=
      fun ⟨_, _, he, _⟩ => nomatch he
    exact ⟨fun he => absurd he hn, fun he => absurd he hn, fun he => absurd he hn⟩
  publishedFirst := publishedFirst_founded shard members signers
  inLine src dst := by
    rw [show (founded shard members signers).network = .founded shard members signers from rfl,
      link_founded]
    trivial

/-- **Every member commits an origin's events in the order in which they were sealed.** Take any run
of a newly founded shard in which every link delivers what it holds in order, and loses nothing; a
packet may be repeated at the back of its link. If an origin sealed one event before another, then
a member that commits the later one has committed the earlier one before. -/
theorem origin_order (shard : ShardId) (members : List NodeId) (signers : NodeId → Signer)
    (moves : List Move) (hi : ∀ move ∈ moves, move.inOrder) (origin id : NodeId) {i j k : Nat}
    {earlier later event : Event} (hij : i < j)
    (he : (((founded shard members signers).run moves).sealed origin)[i]? = some earlier)
    (hl : (((founded shard members signers).run moves).sealed origin)[j]? = some later)
    (hk : (((founded shard members signers).run moves).committed id)[k]? = some event)
    (hp : event.proof = later.proof) :
    ∃ l < k, ∃ before,
      (((founded shard members signers).run moves).committed id)[l]? = some before ∧
        before.proof = earlier.proof ∧ before.origin = origin ∧
        before.timestamp = earlier.timestamp ∧ before.transactions = earlier.transactions := by
  obtain ⟨H, -, h⟩ := (accords_founded shard members signers).keep
    (P := fun H c => c.InOrder members H) (A := fun move => move.inOrder)
    (fun hi _ hm h => h.next hi hm) (inOrder_founded shard members signers) moves hi
  have hC := h.accords.consistent
  rw [← h.accords.sealed] at he hl
  rw [← h.accords.committed] at hk ⊢
  have hearlier : H.Earlier earlier.proof event.proof := by
    refine ⟨origin, earlier, List.mem_of_getElem? he, later, List.mem_of_getElem? hl, ?_, rfl,
      hp.symm⟩
    obtain ⟨hi', rfl⟩ := List.getElem?_eq_some_iff.mp he
    obtain ⟨hj', rfl⟩ := List.getElem?_eq_some_iff.mp hl
    exact List.pairwise_iff_getElem.mp (hC.times origin) i j hi' hj' hij
  -- somebody has voted for the later event, and had closed the earlier one
  obtain ⟨v, hv⟩ := (hC.elected hk).exists_vote
  have hclosed := h.ordered.voted hearlier hv
  rw [hC.closed_eq (hC.length_of_vote hv) (Nat.le_of_lt (List.getElem?_eq_some_iff.mp hk).1)]
    at hclosed
  obtain ⟨l, hlk, before, hb, hbp⟩ := Diary.mem_closed.mp hclosed
  obtain ⟨ho, hw⟩ :=
    hC.eq_of_proof (hC.genuine (List.mem_of_getElem? hb)) (List.mem_of_getElem? he) hbp
  have hw' := Event.mk.inj hw
  exact ⟨l, hlk, before, hb, hbp, ho, hw'.2.2.2.1, hw'.1⟩

/-- Two members and two events of one origin, which the other commits in the same order. -/
theorem origin_order_of_two :
    let moves : List Move := [.submit ⟨"a"⟩ ⟨"x", [1], none⟩, .sealEvent ⟨"a"⟩ 5,
      .submit ⟨"a"⟩ ⟨"x", [2], none⟩, .sealEvent ⟨"a"⟩ 6, .deliver ⟨"a"⟩ ⟨"b"⟩ 0,
      .deliver ⟨"a"⟩ ⟨"b"⟩ 0, .deliver ⟨"b"⟩ ⟨"a"⟩ 0, .deliver ⟨"a"⟩ ⟨"b"⟩ 0,
      .deliver ⟨"b"⟩ ⟨"a"⟩ 0, .deliver ⟨"a"⟩ ⟨"b"⟩ 0, .elect ⟨"a"⟩, .deliver ⟨"a"⟩ ⟨"b"⟩ 0,
      .elect ⟨"b"⟩, .deliver ⟨"b"⟩ ⟨"a"⟩ 0, .deliver ⟨"a"⟩ ⟨"b"⟩ 0, .deliver ⟨"b"⟩ ⟨"a"⟩ 0,
      .elect ⟨"a"⟩, .deliver ⟨"a"⟩ ⟨"b"⟩ 0, .elect ⟨"b"⟩, .deliver ⟨"b"⟩ ⟨"a"⟩ 0,
      .deliver ⟨"a"⟩ ⟨"b"⟩ 0, .deliver ⟨"b"⟩ ⟨"a"⟩ 0]
    let c := (founded ⟨0⟩ [⟨"a"⟩, ⟨"b"⟩] Signer.labelled).run moves
    (c.sealed ⟨"a"⟩)[0]?.map (·.proof) = some "5-a" ∧
      (c.sealed ⟨"a"⟩)[1]?.map (·.proof) = some "6-a" ∧
      (c.committed ⟨"b"⟩)[1]?.map (·.proof) = some "6-a" ∧
      ∃ event, (c.committed ⟨"b"⟩)[0]? = some event ∧ event.proof = "5-a" := by
  intro moves c
  have hi : ∀ move ∈ moves, move.inOrder := by decide +kernel
  have h₁ : (c.sealed ⟨"a"⟩)[0]?.map (·.proof) = some "5-a" := by decide +kernel
  have h₂ : (c.sealed ⟨"a"⟩)[1]?.map (·.proof) = some "6-a" := by decide +kernel
  have h₃ : (c.committed ⟨"b"⟩)[1]?.map (·.proof) = some "6-a" := by decide +kernel
  refine ⟨h₁, h₂, h₃, ?_⟩
  obtain ⟨earlier, he, hep⟩ := Option.map_eq_some_iff.mp h₁
  obtain ⟨later, hl, hlp⟩ := Option.map_eq_some_iff.mp h₂
  obtain ⟨event, hk, hkp⟩ := Option.map_eq_some_iff.mp h₃
  have horder := @origin_order ⟨0⟩ [⟨"a"⟩, ⟨"b"⟩] Signer.labelled moves hi ⟨"a"⟩ ⟨"b"⟩ 0 1 1
    earlier later event Nat.zero_lt_one
  rw [show (founded ⟨0⟩ [⟨"a"⟩, ⟨"b"⟩] Signer.labelled).run moves = c from rfl] at horder
  obtain ⟨l, hlt, before, hb, hbp, -⟩ := horder he hl hk (hkp.trans hlp.symm)
  obtain rfl := Nat.lt_one_iff.mp hlt
  exact ⟨before, hb, hbp.trans hep⟩

end Chronicle

end ShardGossip
