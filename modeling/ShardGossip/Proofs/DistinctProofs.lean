import Mathlib.Logic.Function.Basic
import ShardGossip.Proofs.PendingList
import ShardGossip.Proofs.Sealing

/-!
# ShardGossip.Proofs.DistinctProofs

**No two sealed events have the same proof**, whatever the clocks of the origins show
(`Origins.proofs_distinct`). The events of one origin have different times, as its sealing clock
runs strictly ahead (`Replica.Produced.times`), and the proofs of two origins differ in the origin
that they spell (`proofFor_inj`). Nothing that is submitted is lost or moved on the way: the
transactions of the sealed events, followed by those that wait, are the submitted ones.
-/

namespace ShardGossip

/-- Something that an origin does to make events. -/
inductive Production where
  | submit (transaction : Transaction)
  /-- The origin seals what was submitted, at a time of its wall clock. -/
  | sealEvent (now : Nat) (signer : Signer)

/-- The transactions that are submitted. -/
def Production.submitted : Production → List Transaction
  | submit transaction => [transaction]
  | sealEvent .. => []

namespace Replica

/-- Does it. -/
def produce (r : Replica) : Production → Outcome
  | .submit transaction => .silent (r.submit transaction)
  | .sealEvent now signer => r.sealEvent now signer

/-- The event that is sealed, if there is anything to seal. -/
def product (r : Replica) : Production → List Event
  | .submit _ => []
  | .sealEvent now _ => (r.nextEvent? now).toList

/-- Sealing does nothing if nothing was submitted. Otherwise it makes the next event, and may
announce it. -/
theorem sealEvent_cases (r : Replica) (now : Nat) (signer : Signer) :
    (r.nextEvent? now = none ∧ r.sealEvent now signer = .silent r) ∨
      ∃ event announced electing, r.nextEvent? now = some event ∧
        (r.sealEvent now signer).replica =
          { r.enqueue event signer with announced := announced, electing := electing } := by
  rw [sealEvent_eq]
  cases r.nextEvent? now with
  | none => exact .inl ⟨rfl, rfl⟩
  | some event =>
      right
      rcases (r.enqueue event signer).checkAckQuorum_cases event.proof with
        ⟨h, -⟩ | ⟨_, -, -, -, -, h⟩
      · exact ⟨event, (r.enqueue event signer).announced, (r.enqueue event signer).electing, rfl,
          congrArg Outcome.replica h⟩
      · exact ⟨event, _, _, rfl, congrArg Outcome.replica h⟩

/-- What an origin was in the beginning, what it is now, and what was submitted and sealed in
between. -/
structure Produced (r₀ r : Replica) (submitted : List Transaction) (sealed : List Event) :
    Prop where
  localId : r.localId = r₀.localId
  own : ∀ e ∈ sealed, e = .sealed r₀.localId e.timestamp e.transactions
  times : (sealed.map (·.timestamp)).Pairwise (· < ·)
  /-- The sealing clock has not been behind the last event. -/
  clock : ∀ e ∈ sealed, e.timestamp ≤ r.clock
  transactions : sealed.flatMap (·.transactions) ++ r.unbatched = r₀.unbatched ++ submitted
  /-- The sealed events are pending behind the earlier ones, unless their proofs were pending. -/
  pending : r₀.store.WellFormed → r.store.WellFormed ∧
    r.store.pendingEvents.map (·.forWire) =
      r₀.store.pendingEvents.map (·.forWire) ++ sealed.filter (!r₀.store.contains ·.proof)

variable {r₀ r : Replica} {submitted : List Transaction} {sealed : List Event}

theorem produced_nothing (r : Replica) : Produced r r [] [] where
  localId := rfl
  own := List.forall_mem_nil _
  times := .nil
  clock := List.forall_mem_nil _
  transactions := (List.append_nil _).symm
  pending h := ⟨h, (List.append_nil _).symm⟩

theorem Produced.submit (h : Produced r₀ r submitted sealed) (transaction : Transaction) :
    Produced r₀ (r.submit transaction) (submitted ++ [transaction]) sealed :=
  { h with
    transactions := by
      show _ ++ (r.unbatched ++ [transaction]) = _
      rw [← List.append_assoc, h.transactions, List.append_assoc] }

/-- A later event has another proof than all before. -/
theorem Produced.not_sealed (h : Produced r₀ r submitted sealed) {event : Event}
    (he : event = .sealed r.localId event.timestamp event.transactions)
    (ht : r.clock < event.timestamp) : event.proof ∉ sealed.map (·.proof) := by
  intro hm
  obtain ⟨e, hs, hp⟩ := List.mem_map.mp hm
  have hle := h.clock e hs
  rw [h.own e hs, he] at hp
  have heq := (proofFor_inj.mp hp).1
  exact absurd (heq ▸ ht) (Nat.not_lt.mpr hle)

theorem Produced.contains_iff (h : Produced r₀ r submitted sealed) (hw : r₀.store.WellFormed)
    {p : Proof} : r.store.contains p ↔
      r₀.store.contains p ∨ p ∈ sealed.map (·.proof) := by
  obtain ⟨hr, hp⟩ := h.pending hw
  have hproofs := congrArg (List.map (·.proof)) hp
  rw [List.map_map, List.map_append, List.map_map] at hproofs
  have hr₀ : p ∈ r₀.store.pendingEvents.map ((·.proof) ∘ Event.forWire) ↔ r₀.store.contains p :=
    hw.contains_iff_mem.symm
  rw [hr.contains_iff_mem, show r.store.pendingEvents.map (·.proof) = _ from hproofs,
    List.mem_append, hr₀]
  refine or_congr_right' fun hn => ?_
  simp only [List.mem_map, List.mem_filter, Bool.not_eq_true']
  constructor
  · rintro ⟨e, ⟨he, -⟩, rfl⟩
    exact ⟨e, he, rfl⟩
  · rintro ⟨e, he, rfl⟩
    exact ⟨e, ⟨he, Bool.eq_false_iff.mpr hn⟩, rfl⟩

/-- What is sealed next is pending behind the others, unless its proof was pending in the
beginning. -/
theorem Produced.pending_enqueue (h : Produced r₀ r submitted sealed) (hw : r₀.store.WellFormed)
    {now : Nat} {event : Event} (he : r.nextEvent? now = some event) (signer : Signer) :
    (r.enqueue event signer).store.WellFormed ∧
      (r.enqueue event signer).store.pendingEvents.map (·.forWire) =
        r₀.store.pendingEvents.map (·.forWire) ++
          (sealed ++ [event]).filter (!r₀.store.contains ·.proof) := by
  obtain ⟨hown, ht, -⟩ := nextEvent?_eq_some he
  obtain ⟨hr, hp⟩ := h.pending hw
  have hheld : (event.heldWith (signer.sign (Utf8.encode event.proof))).forWire = event := by
    rw [hown]
    rfl
  -- its proof is pending now if it was pending in the beginning
  have hc : r.store.contains event.proof ↔ r₀.store.contains event.proof :=
    (h.contains_iff hw).trans (or_iff_left (h.not_sealed hown ht))
  refine ⟨hr.insert _, ?_⟩
  show (r.store.insert _).2.pendingEvents.map _ = _
  rw [hr.pendingEvents_insert, List.filter_append, ← List.append_assoc, ← hp]
  show List.map _ (if r.store.contains event.proof then _ else _) = _
  by_cases hc₀ : r₀.store.contains event.proof
  · rw [if_pos (hc.mpr hc₀), List.filter_cons_of_neg (by simpa using hc₀), List.filter_nil,
      List.append_nil]
  · rw [if_neg (mt hc.mp hc₀), List.filter_cons_of_pos (by simpa using hc₀), List.filter_nil,
      List.map_append, List.map_singleton, hheld]

/-- What is sealed next comes behind all that was sealed before. -/
theorem Produced.enqueue (h : Produced r₀ r submitted sealed) {now : Nat} {event : Event}
    (he : r.nextEvent? now = some event) (signer : Signer) (announced : Std.ExtTreeSet Proof)
    (electing : Bool) :
    Produced r₀
      { r.enqueue event signer with announced := announced, electing := electing }
      submitted (sealed ++ [event]) := by
  obtain ⟨hown, ht, hb⟩ := nextEvent?_eq_some he
  have hlt : ∀ e ∈ sealed, e.timestamp < event.timestamp := fun e hs =>
    Nat.lt_of_le_of_lt (h.clock e hs) ht
  refine ⟨h.localId, List.forall_mem_append.mpr ⟨h.own, ?_⟩, ?_,
    List.forall_mem_append.mpr ⟨fun e hs => Nat.le_of_lt (hlt e hs), ?_⟩, ?_,
    fun hw => h.pending_enqueue hw he signer⟩
  · exact List.forall_mem_singleton.mpr (h.localId ▸ hown)
  · rw [List.map_append, List.pairwise_append]
    refine ⟨h.times, List.pairwise_singleton .., List.forall_mem_map.mpr fun e hs t ht => ?_⟩
    rw [List.mem_singleton.mp ht]
    exact hlt e hs
  · exact List.forall_mem_singleton.mpr (Nat.le_refl _)
  · rw [List.flatMap_append, List.flatMap_singleton, hb, h.transactions]
    exact List.append_nil _

theorem Produced.produce (h : Produced r₀ r submitted sealed) (production : Production) :
    Produced r₀ (r.produce production).replica (submitted ++ production.submitted)
      (sealed ++ r.product production) := by
  cases production with
  | submit transaction =>
      rw [show r.product (.submit transaction) = [] from rfl, List.append_nil]
      exact h.submit transaction
  | sealEvent now signer =>
      rw [show (Production.sealEvent now signer).submitted = [] from rfl, List.append_nil]
      show Produced r₀ (r.sealEvent now signer).replica submitted
        (sealed ++ (r.nextEvent? now).toList)
      rcases r.sealEvent_cases now signer with ⟨hn, hs⟩ | ⟨event, announced, electing, hn, hs⟩
      · rw [hn, hs]
        exact (List.append_nil sealed).symm ▸ h
      · rw [hs, hn]
        exact h.enqueue hn signer announced electing

end Replica

/-- Origins, each with the events that it has sealed. -/
structure Origins (ι : Type) where
  chains : ι → Replica
  sealed : ι → List Event

namespace Origins

variable {ι : Type} [DecidableEq ι]

/-- Nothing has been sealed. -/
def starting (chains : ι → Replica) : Origins ι := ⟨chains, fun _ => []⟩

/-- One of the origins does something. -/
def next (o : Origins ι) (call : ι × Production) : Origins ι where
  chains := Function.update o.chains call.1 ((o.chains call.1).produce call.2).replica
  sealed := Function.update o.sealed call.1
    (o.sealed call.1 ++ (o.chains call.1).product call.2)

/-- They do several things, in any order. -/
def run (o : Origins ι) (calls : List (ι × Production)) : Origins ι :=
  calls.foldl next o

/-- The transactions that are submitted to one of the origins, in order. -/
def submittedTo (i : ι) (calls : List (ι × Production)) : List Transaction :=
  calls.flatMap fun call => if call.1 = i then call.2.submitted else []

theorem produced_next {o : Origins ι} {r₀ : Replica} {submitted : List Transaction} {i : ι}
    (h : r₀.Produced (o.chains i) submitted (o.sealed i)) (call : ι × Production) :
    r₀.Produced ((o.next call).chains i)
      (submitted ++ if call.1 = i then call.2.submitted else []) ((o.next call).sealed i) := by
  dsimp only [next]
  by_cases hi : call.1 = i
  · subst hi
    rw [if_pos rfl, Function.update_self, Function.update_self]
    exact h.produce call.2
  · rw [if_neg hi, Function.update_of_ne (Ne.symm hi), Function.update_of_ne (Ne.symm hi),
      List.append_nil]
    exact h

theorem produced_run {o : Origins ι} {r₀ : Replica} {submitted : List Transaction} {i : ι}
    (h : r₀.Produced (o.chains i) submitted (o.sealed i)) (calls : List (ι × Production)) :
    r₀.Produced ((o.run calls).chains i) (submitted ++ submittedTo i calls)
      ((o.run calls).sealed i) := by
  induction calls generalizing o submitted with
  | nil => exact (List.append_nil submitted).symm ▸ h
  | cons call rest ih =>
      rw [submittedTo, List.flatMap_cons, ← List.append_assoc]
      exact ih (produced_next h call)

/-- **No two sealed events have the same proof**, whatever the origins are called and whatever their
clocks show. Take chains of different nodes, and let transactions be submitted and events be sealed
in any order. Then no proof is sealed twice, the times of each origin's events go up, and their
transactions, followed by the ones that wait, are those that had waited and those submitted since,
in order. What was sealed is pending where it was sealed, unless its proof was pending before. -/
theorem proofs_distinct (chains : ι → Replica)
    (hid : Function.Injective fun i => (chains i).localId) (calls : List (ι × Production)) :
    let o := (starting chains).run calls
    (∀ i j (k l : Nat) (e e' : Event), (o.sealed i)[k]? = some e → (o.sealed j)[l]? = some e' →
        e.proof = e'.proof → i = j ∧ k = l) ∧
      ∀ i, ((o.sealed i).map (·.timestamp)).Pairwise (· < ·) ∧
        (∀ e ∈ o.sealed i, e.origin = (chains i).localId) ∧
        (o.sealed i).flatMap (·.transactions) ++ (o.chains i).unbatched =
          (chains i).unbatched ++ submittedTo i calls ∧
        ((chains i).store.WellFormed → (o.chains i).store.pendingEvents.map (·.forWire) =
          (chains i).store.pendingEvents.map (·.forWire) ++
            (o.sealed i).filter (!(chains i).store.contains ·.proof)) := by
  have h (i : ι) : (chains i).Produced (((starting chains).run calls).chains i)
      (submittedTo i calls) (((starting chains).run calls).sealed i) :=
    produced_run (o := starting chains) (chains i).produced_nothing calls
  generalize (starting chains).run calls = o at h
  refine ⟨fun i j k l e e' he he' hp => ?_, fun i => ⟨(h i).times, fun e he => ?_,
    (h i).transactions, fun hw => ((h i).pending hw).2⟩⟩
  · have hown := (h i).own e (List.mem_of_getElem? he)
    have hown' := (h j).own e' (List.mem_of_getElem? he')
    rw [hown, hown'] at hp
    obtain ⟨ht, ho⟩ := proofFor_inj.mp hp
    obtain rfl := hid ho
    have htimes : ((o.sealed i).map (·.timestamp)).Nodup := (h i).times.imp Nat.ne_of_lt
    have hk := (List.getElem?_eq_some_iff.mp he).1
    refine ⟨rfl, (List.getElem?_inj (by rwa [List.length_map]) htimes).mp ?_⟩
    rw [List.getElem?_map, List.getElem?_map, he, he', Option.map_some, Option.map_some, ht]
  · rw [(h i).own e he]
    rfl

/-- Two origins, of which one is called like a proof of the other. They seal at the same time, and
the clock of one goes back. -/
theorem proofs_distinct_of_two :
    let chains (second : Bool) : Replica :=
      ((Replica.fresh (if second then ⟨"5-a"⟩ else ⟨"a"⟩) ⟨0⟩).setMembers
        [⟨"a"⟩, ⟨"5-a"⟩]).replica
    let x (n : UInt8) : Transaction := ⟨"x", [n], none⟩
    let signer : Signer := .labelled ⟨"a"⟩
    let calls : List (Bool × Production) := [(false, .submit (x 1)), (true, .submit (x 2)),
      (false, .sealEvent 5 signer), (true, .sealEvent 5 signer), (false, .submit (x 3)),
      (false, .submit (x 4)), (false, .sealEvent 2 signer), (false, .submit (x 5))]
    let o := (starting chains).run calls
    Function.Injective (fun second => (chains second).localId) ∧
      (o.sealed false).map (·.proof) = ["5-a", "6-a"] ∧
      (o.sealed true).map (·.proof) = ["5-5-a"] ∧
      (o.sealed false).flatMap (·.transactions) ++ (o.chains false).unbatched =
        [x 1, x 3, x 4, x 5] ∧
      (o.chains false).store.pendingEvents.map (·.forWire) = o.sealed false := by
  intro chains x signer calls o
  have hid : Function.Injective fun second => (chains second).localId := by
    rintro (_ | _) (_ | _) h
    · rfl
    · exact absurd h (by decide)
    · exact absurd h (by decide)
    · rfl
  obtain ⟨-, hall⟩ := proofs_distinct chains hid calls
  obtain ⟨-, -, htransactions, hpending⟩ := hall false
  have hw : (chains false).store.WellFormed := EventStore.wellFormed_empty
  refine ⟨hid, by decide +kernel, by decide +kernel, htransactions, (hpending hw).trans ?_⟩
  exact List.filter_eq_self.mpr fun e _ => rfl

end Origins

end ShardGossip
