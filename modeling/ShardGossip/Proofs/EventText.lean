import Mathlib.Data.List.Forall2
import ShardGossip.Event.Json
import ShardGossip.Proofs.JsonRecord
import ShardGossip.Proofs.JsonText
import ShardGossip.Proofs.Store

/-!
# ShardGossip.Proofs.EventText

**Events and transactions are read from every record that holds their fields** (`Written.ofJson?`),
so their JSON texts are read as they were written. Only the time of an event is bounded: it is a
number of 64 bits.
-/

namespace ShardGossip

open Json Json.Value

namespace Transaction

/-- The record holds the fields of the transaction. -/
structure Written (t : Transaction) (members : List (String × Json.Value)) : Prop where
  kind : Holds members "kind" (· = ofText t.kind)
  payload : Holds members "payload" (· = ofBytes t.payload)
  contract : MayHold members "contract" (· = ofText? t.contract) (t.contract = none)

theorem Written.ofJson? {t : Transaction} {members : List (String × Json.Value)}
    (h : t.Written members) : ofJson? (.record members) = some t := by
  have hnames : ∀ name ∈ fieldNames, timesNamed members name ≤ 1 := by
    simp only [fieldNames, List.forall_mem_cons]
    exact ⟨h.kind.le, h.payload.le, h.contract.le, by simp⟩
  have hkind := h.kind.required (·.asText?) (a := t.kind) (by rintro _ rfl; rfl)
  have hpayload := h.payload.required (·.asBytes?) (a := t.payload)
    (by rintro _ rfl; exact asBytes?_ofBytes _)
  have hcontract := h.contract.orElse (nullable? (·.asText?)) (a := t.contract)
    (by rintro _ rfl; cases t.contract <;> rfl) id
  rw [Transaction.ofJson?, slots?_record, if_pos hnames]
  simp [fieldNames, hkind, hpayload, hcontract]

/-- The JSON form is such a record. -/
theorem exists_written (t : Transaction) :
    ∃ members, t.toJson = .record members ∧ t.Written members := by
  refine ⟨_, rfl, ?_⟩
  obtain ⟨kind, payload, _ | contract⟩ := t
  · have hnames : ["kind", "payload"].Nodup := by decide
    exact ⟨holds_of_nodup hnames (by simp) rfl, holds_of_nodup hnames (by simp) rfl,
      .inr ⟨rfl, rfl⟩⟩
  · have hnames : ["kind", "payload", "contract"].Nodup := by decide
    exact ⟨holds_of_nodup hnames (by simp) rfl, holds_of_nodup hnames (by simp) rfl,
      .inl (holds_of_nodup hnames (by simp [ofText?]) rfl)⟩

theorem whole_toJson (t : Transaction) : t.toJson.Whole := by
  obtain ⟨kind, payload, _ | contract⟩ := t
  · exact .record (List.forall_mem_cons.mpr ⟨.text kind,
      List.forall_mem_singleton.mpr (whole_ofBytes payload)⟩)
  · exact .record (List.forall_mem_cons.mpr ⟨.text kind,
      List.forall_mem_cons.mpr ⟨whole_ofBytes payload,
        List.forall_mem_singleton.mpr (.text contract)⟩⟩)

theorem ofJson?_toJson (t : Transaction) : ofJson? t.toJson = some t := by
  obtain ⟨members, hmembers, h⟩ := t.exists_written
  rw [hmembers, h.ofJson?]

/-- **Transactions are read from their text.** -/
theorem decodeList?_encodeList (ts : List Transaction) : decodeList? (encodeList ts) = some ts := by
  rw [decodeList?, encodeList, parse?_compact (whole_array fun t _ => t.whole_toJson)]
  exact asList?_array fun t _ => t.ofJson?_toJson

/-- The value is an array of records that hold the transactions. -/
def ListWritten (ts : List Transaction) (v : Json.Value) : Prop :=
  ∃ records, v = .array (records.map .record) ∧ List.Forall₂ Written ts records

theorem ListWritten.ofJson? {ts : List Transaction} {v : Json.Value} (h : ListWritten ts v) :
    v.asList? ofJson? = some ts := by
  obtain ⟨records, rfl, h⟩ := h
  rw [asList?]
  induction h with
  | nil => rfl
  | cons ht _ ih =>
      rw [List.map_cons, List.mapM_cons, ht.ofJson?, ih]
      rfl

theorem listWritten_toJson (ts : List Transaction) : ListWritten ts (.array (ts.map toJson)) := by
  choose members hmembers h using exists_written
  refine ⟨ts.map members, ?_, List.forall₂_map_right_iff.mpr (List.forall₂_same.mpr fun t _ => h t)⟩
  simp [hmembers]

end Transaction

namespace Event

/-! ### Sets and maps -/

/-- The value is an array of the nodes of the set, in any order and with repetitions. -/
def NodeSetWritten (set : NodeSet) (v : Json.Value) : Prop :=
  ∃ ids : List NodeId, v = .array (ids.map NodeId.toJson) ∧ ∀ id, id ∈ ids ↔ id ∈ set

theorem NodeSetWritten.ofJson? {set : NodeSet} {v : Json.Value} (h : NodeSetWritten set v) :
    nodeSetOfJson? v = some set := by
  obtain ⟨ids, rfl, h⟩ := h
  have hl : asList? NodeId.ofJson? (.array (ids.map NodeId.toJson)) = some ids :=
    asList?_array fun id _ => rfl
  rw [nodeSetOfJson?, hl, Option.map_some, Option.some.injEq]
  refine Std.ExtTreeSet.ext_mem fun id => ?_
  have hc : (ids.foldl (·.insert ·) (∅ : NodeSet)).contains id ↔ _ := contains_foldl_insert
  rw [← Std.ExtTreeSet.contains_iff_mem, hc, h id]
  simp

/-- Of entries with one key the last is kept. -/
theorem getElem?_foldl_insert_eq_lookup {l : List (NodeId × String)} {m : NodeMap String}
    {a : NodeId} : (l.foldl (fun acc entry => acc.insert entry.1 entry.2) m)[a]? =
      (l.reverse.lookup a).or m[a]? := by
  induction l generalizing m with
  | nil => rfl
  | cons entry rest ih =>
      obtain ⟨key, digits⟩ := entry
      rw [List.foldl_cons, ih, List.reverse_cons, List.lookup_append, Option.or_assoc,
        Std.ExtTreeMap.getElem?_insert, List.lookup_cons]
      by_cases h : key = a
      · subst h
        simp
      · simp [h, beq_false_of_ne (Ne.symm h)]

/-- The value is an object of the entries of the map; of entries of one node the last counts. -/
def NodeMapWritten (map : NodeMap String) (v : Json.Value) : Prop :=
  ∃ entries : List (NodeId × String),
    v = .record (entries.map fun entry => (entry.1.name, ofText entry.2)) ∧
      ∀ id, map[id]? = entries.reverse.lookup id

theorem NodeMapWritten.ofJson? {map : NodeMap String} {v : Json.Value} (h : NodeMapWritten map v) :
    nodeMapOfJson? v = some map := by
  obtain ⟨entries, rfl, h⟩ := h
  have hl : asMembers? (·.asText?) (.record (entries.map fun entry =>
      (entry.1.name, ofText entry.2))) = some (entries.map fun entry => (entry.1.name, entry.2)) :=
    asMembers?_record (fun entry : NodeId × String => entry.1.name)
      (f := fun entry => ofText entry.2) (g := fun entry => entry.2) fun _ _ => rfl
  rw [nodeMapOfJson?, hl, Option.map_some, Option.some.injEq, List.foldl_map]
  refine Std.ExtTreeMap.ext_getElem? fun id => ?_
  refine getElem?_foldl_insert_eq_lookup.trans ?_
  rw [h id, Std.ExtTreeMap.getElem?_empty, Option.or_none]

theorem nodeMapWritten_toList (map : NodeMap String) :
    NodeMapWritten map (.record (map.toList.map fun entry => (entry.1.name, ofText entry.2))) := by
  refine ⟨_, rfl, fun id => ?_⟩
  have hlookup := getElem?_foldl_insert_eq_lookup (l := map.toList) (m := ∅) (a := id)
  rw [Std.ExtTreeMap.getElem?_empty, Option.or_none] at hlookup
  rw [← hlookup]
  exact Option.ext fun digits => Std.ExtTreeMap.mem_toList_iff_getElem?_eq_some.symm.trans
    (getElem?_foldl_insert Std.ExtTreeMap.distinct_keys_toList).symm

/-! ### Events -/

/-- The record holds the fields of the event. -/
structure Written (e : Event) (members : List (String × Json.Value)) : Prop where
  transactions : Holds members "transactions" (Transaction.ListWritten e.transactions)
  proof : Holds members "proof" (· = ofText e.proof)
  origin : Holds members "origin" (· = e.origin.toJson)
  timestamp : MayHold members "timestamp" (· = ofNat e.timestamp) (e.timestamp = 0)
  signedUpdate : MayHold members "signed_update" (· = ofBytes e.signedUpdate) (e.signedUpdate = [])
  backedResponses : MayHold members "backed_responses" (NodeSetWritten e.backedResponses)
    (e.backedResponses = ∅)
  backedProofs : MayHold members "backed_proofs" (NodeMapWritten e.backedProofs)
    (e.backedProofs = ∅)

theorem Written.ofJson? {e : Event} {members : List (String × Json.Value)} (h : e.Written members)
    (htime : e.timestamp < Nat.pow 2 64) : ofJson? (.record members) = some e := by
  have hnames : ∀ name ∈ fieldNames, timesNamed members name ≤ 1 := by
    simp only [fieldNames, List.forall_mem_cons]
    exact ⟨h.transactions.le, h.proof.le, h.origin.le, h.timestamp.le, h.signedUpdate.le,
      h.backedResponses.le, h.backedProofs.le, by simp⟩
  have htransactions := h.transactions.required (·.asList? Transaction.ofJson?) fun _ h => h.ofJson?
  have hproof := h.proof.required (·.asText?) (a := e.proof) (by rintro _ rfl; rfl)
  have horigin := h.origin.required NodeId.ofJson? (a := e.origin) (by rintro _ rfl; rfl)
  have htimestamp := h.timestamp.orElse (·.asNat? 64) (a := e.timestamp)
    (by rintro _ rfl; exact asNat?_ofNat htime) id
  have hsigned := h.signedUpdate.orElse (·.asBytes?) (a := e.signedUpdate)
    (by rintro _ rfl; exact asBytes?_ofBytes _) id
  have hresponses := h.backedResponses.orElse nodeSetOfJson? (fun _ h => h.ofJson?) id
  have hproofs := h.backedProofs.orElse nodeMapOfJson? (fun _ h => h.ofJson?) id
  rw [Event.ofJson?, slots?_record, if_pos hnames]
  simp [fieldNames, htransactions, hproof, horigin, htimestamp, hsigned, hresponses, hproofs]

/-- The JSON form is such a record. -/
theorem exists_written (e : Event) : ∃ members, e.toJson = .record members ∧ e.Written members := by
  have hnames : fieldNames.Nodup := by decide
  have hset : NodeSetWritten e.backedResponses
      (.array (e.backedResponses.toList.map NodeId.toJson)) := ⟨_, rfl, fun id => by simp⟩
  exact ⟨_, rfl, {
    transactions := holds_of_nodup hnames (by simp) (Transaction.listWritten_toJson _)
    proof := holds_of_nodup hnames (by simp) rfl
    origin := holds_of_nodup hnames (by simp) rfl
    timestamp := .inl (holds_of_nodup hnames (by simp) rfl)
    signedUpdate := .inl (holds_of_nodup hnames (by simp) rfl)
    backedResponses := .inl (holds_of_nodup hnames (by simp) hset)
    backedProofs := .inl (holds_of_nodup hnames (by simp) (nodeMapWritten_toList e.backedProofs)) }⟩

theorem whole_toJson (e : Event) : e.toJson.Whole := by
  refine .record ?_
  simp only [List.forall_mem_cons]
  refine ⟨whole_array fun t _ => t.whole_toJson, .text _, .text _, .number _, whole_ofBytes _,
    whole_array fun id _ => .text id.name, .record fun m hm => ?_, by simp⟩
  obtain ⟨entry, -, rfl⟩ := List.mem_map.mp hm
  exact .text entry.2

theorem ofJson?_toJson {e : Event} (h : e.timestamp < Nat.pow 2 64) :
    ofJson? e.toJson = some e := by
  obtain ⟨members, hmembers, hwritten⟩ := e.exists_written
  rw [hmembers, hwritten.ofJson? h]

/-- **An event is read from its text.** -/
theorem decode?_encode {e : Event} (h : e.timestamp < Nat.pow 2 64) :
    decode? e.encode = some e := by
  rw [decode?, encode, parse?_compact e.whole_toJson]
  exact ofJson?_toJson h

/-- **Events are read from their text.** -/
theorem decodeList?_encodeList {events : List Event}
    (h : ∀ e ∈ events, e.timestamp < Nat.pow 2 64) :
    decodeList? (encodeList events) = some events := by
  rw [decodeList?, encodeList, parse?_compact (whole_array fun e _ => e.whole_toJson)]
  exact asList?_array fun e he => ofJson?_toJson (h e he)

end Event

end ShardGossip
