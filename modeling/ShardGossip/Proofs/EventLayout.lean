import ShardGossip.Proofs.PacketRoundTrip

/-!
# ShardGossip.Proofs.EventLayout

**An event is read the same from every layout of its text** (`Event.read_in_every_layout`). The text
may be any spelling of any record that holds the fields of the event, in whatever order they stand
and whatever stands beside them; and it is no event if a field is repeated, or if one that has to be
there is left out. A packet that carries the text is read accordingly.
-/

namespace ShardGossip

open Json Json.Value Packet

namespace Transaction

theorem ofJson?_repeated {members : List (String × Json.Value)} {name : String}
    (hname : name ∈ fieldNames) (h : 1 < timesNamed members name) :
    ofJson? (.record members) = none := by
  rw [ofJson?, slots?_repeated hname h]
  rfl

end Transaction

namespace Event

variable {members : List (String × Json.Value)} {name : String}

/-- A field of the record, or of one of the transactions in it, is repeated. -/
def Repeats (members : List (String × Json.Value)) : Prop :=
  (∃ name ∈ fieldNames, 1 < timesNamed members name) ∨
    ∃ items record, ("transactions", .array items) ∈ members ∧ .record record ∈ items ∧
      ∃ name ∈ Transaction.fieldNames, 1 < timesNamed record name

/-- A field of the record that has to be there is left out. -/
def LeavesOut (members : List (String × Json.Value)) : Prop :=
  ∃ name ∈ ["transactions", "proof", "origin"], timesNamed members name = 0

theorem ofJson?_leavesOut (h : LeavesOut members) : ofJson? (.record members) = none := by
  obtain ⟨name, hname, h⟩ := h
  rw [ofJson?, slots?_record]
  split
  · simp only [List.mem_cons, List.not_mem_nil, or_false] at hname
    rcases hname with rfl | rfl | rfl <;> simp [fieldNames, slotOf_missing h, Slot.required]
  · rfl

/-- Unreadable transactions make the event unreadable. -/
theorem ofJson?_transactions {v : Json.Value} (hv : ("transactions", v) ∈ members)
    (h : v.asList? Transaction.ofJson? = none) : ofJson? (.record members) = none := by
  rw [ofJson?, slots?_record]
  split
  · next hnames =>
    have hholds : Holds members "transactions" (· = v) :=
      holds_of_mem (hnames _ List.mem_cons_self) hv rfl
    obtain ⟨_, hslot, rfl⟩ := hholds.slotOf
    simp [fieldNames, hslot, Slot.required, h]
  · rfl

theorem ofJson?_repeats (h : Repeats members) : ofJson? (.record members) = none := by
  rcases h with ⟨name, hname, h⟩ | ⟨items, record, hitems, hrecord, name, hname, h⟩
  · rw [ofJson?, slots?_repeated hname h]
    rfl
  · exact ofJson?_transactions hitems (mapM_eq_none hrecord (Transaction.ofJson?_repeated hname h))

/-- A proposal that carries bytes as its event is read as they are. -/
theorem decode_proposal {signature bytes : Bytes} (hsignature : signature.length < Nat.pow 2 32)
    (hbytes : bytes.length < Nat.pow 2 32) :
    decode (0x01 :: (framed signature ++ framed bytes)) =
      match decode? bytes with
      | some e => .ok (propose signature e)
      | none => .error .invalidJson := by
  have hfield := (takes_field hsignature).whole (framed bytes)
  have hjson := (takes_field hbytes).whole []
  rw [List.append_nil] at hjson
  simp only [decode, takeBody, takeJson, hfield, hjson, bind, Except.bind, reduceIte,
    show ¬(1 : UInt8) = 0 by decide]
  cases decode? bytes <;> rfl

/-- **An event is read from every layout of its text**, by itself and in a packet. -/
theorem read_in_every_layout {text : String} (h : Spells (.record members) text.toList) :
    (∀ e : Event, e.timestamp < Nat.pow 2 64 → e.Written members →
      decode? (Utf8.encode text) = some e ∧
      ∀ signature : Bytes, signature.length < Nat.pow 2 32 →
        (Utf8.encode text).length < Nat.pow 2 32 →
          decode (0x01 :: (framed signature ++ framed (Utf8.encode text))) =
            .ok (propose signature e)) ∧
    (Repeats members ∨ LeavesOut members →
      decode? (Utf8.encode text) = none ∧
      ∀ signature : Bytes, signature.length < Nat.pow 2 32 →
        (Utf8.encode text).length < Nat.pow 2 32 →
          decode (0x01 :: (framed signature ++ framed (Utf8.encode text))) =
            .error .invalidJson) := by
  have hdecode : decode? (Utf8.encode text) = ofJson? (.record members) := by
    rw [decode?, h.parse?]
    rfl
  refine ⟨fun e htime hwritten => ?_, fun hbad => ?_⟩
  · have hread : decode? (Utf8.encode text) = some e := hdecode.trans (hwritten.ofJson? htime)
    refine ⟨hread, fun signature hsignature htext => ?_⟩
    rw [decode_proposal hsignature htext, hread]
  · have hread : decode? (Utf8.encode text) = none :=
      hdecode.trans (hbad.elim ofJson?_repeats ofJson?_leavesOut)
    refine ⟨hread, fun signature hsignature htext => ?_⟩
    rw [decode_proposal hsignature htext, hread]

/-- Fields out of order and left out, a contract that is `null`, an escaped letter, white space and
a field that no event has; and a proof that stands there twice. -/
theorem read_reordered :
    let text := "\x7b\"note\":[-1.5e3] ,\"origin\":\"\\u0061\",\"transactions\":[\x7b" ++
      "\"contract\":null,\"payload\":[255],\"kind\":\"k\"\x7d],\n\"proof\":\"5-a\"\x7d"
    let repeated := "\x7b\"proof\":\"5-a\",\"proof\":\"5-a\"\x7d"
    decode? (Utf8.encode text) = some ⟨[⟨"k", [255], none⟩], "5-a", ⟨"a"⟩, 0, [], ∅, ∅⟩ ∧
      decode? (Utf8.encode repeated) = none := by
  intro text repeated
  have hdigit {c : Char} (h : c.isDigit) : IsDigits [c] :=
    ⟨List.cons_ne_nil _ _, List.forall_mem_singleton.mpr h⟩
  have hnumber : Spells (.number none) (['-'] ++ Nat.toDigits 10 1 ++ ['.', '5'] ++ ['e', '3']) :=
    .decimal 1 (.inr rfl) (.present (hdigit rfl)) (.present (.inl rfl) (.inl rfl) (hdigit rfl))
      (List.cons_ne_nil _ _)
  have hnote : Spells (.array [.number none]) "[-1.5e3] ".toList :=
    .spaced spacing_nil (List.forall_mem_singleton.mpr (.inl rfl))
      (@Spells.array [(_, _)] (List.cons_ne_nil _ _) (List.forall_mem_singleton.mpr hnumber))
  have horigin : Spells (.ofText "a") "\"\\u0061\"".toList :=
    have hunit : HexUnit 'a'.toNat ['\\', 'u', '0', '0', '6', '1'] :=
      .digits (i := 0) (j := 0) (k := 6) (l := 1) ⟨by decide, .inl rfl⟩ ⟨by decide, .inl rfl⟩
        ⟨by decide, .inl rfl⟩ ⟨by decide, .inl rfl⟩
    .text (.unit hunit .empty)
  have hproof : Spells (.ofText "proof") "\n\"proof\"".toList :=
    .spaced (List.forall_mem_singleton.mpr (.inr (.inr (.inl rfl)))) spacing_nil
      (spells_renderText "proof")
  let transaction := [("contract", Json.Value.null), ("payload", .ofBytes [255]),
    ("kind", .ofText "k")]
  have hwhole : (Json.Value.array [.record transaction]).Whole := by
    refine .array (List.forall_mem_singleton.mpr (.record ?_))
    simp only [transaction, List.forall_mem_cons]
    exact ⟨.null, whole_ofBytes _, .text "k", by simp⟩
  let members : List Member := [
    ⟨some "note", "\"note\"".toList, .array [.number none], "[-1.5e3] ".toList⟩,
    ⟨some "origin", "\"origin\"".toList, .ofText "a", "\"\\u0061\"".toList⟩,
    ⟨some "transactions", "\"transactions\"".toList, .array [.record transaction],
      render (.array [.record transaction])⟩,
    ⟨some "proof", "\n\"proof\"".toList, .ofText "5-a", "\"5-a\"".toList⟩]
  have hmembers : Spells (.object (members.map Member.entry))
      ('{' :: commas (members.map Member.text) ++ ['}']) := by
    refine .object (List.cons_ne_nil _ _) ?_ ?_ <;> simp only [members, List.forall_mem_cons]
    · exact ⟨spells_renderText "note", spells_renderText "origin",
        spells_renderText "transactions", hproof, by simp⟩
    · exact ⟨hnote, horigin, hwhole.spells, spells_renderText "5-a", by simp⟩
  have htext : text.toList = '{' :: commas (members.map Member.text) ++ ['}'] := by
    decide +kernel
  have hspells : Spells (.record [("note", .array [.number none]), ("origin", .ofText "a"),
      ("transactions", .array [.record transaction]), ("proof", .ofText "5-a")]) text.toList :=
    htext ▸ hmembers
  have htransaction : Transaction.Written ⟨"k", [255], none⟩ transaction := {
    kind := holds_of_nodup (by decide) (by simp [transaction]) rfl
    payload := holds_of_nodup (by decide) (by simp [transaction]) rfl
    contract := .inl (holds_of_nodup (by decide) (by simp [transaction, ofText?]) rfl) }
  let twice := [("proof", Json.Value.ofText "5-a"), ("proof", .ofText "5-a")]
  have hrepeated : Spells (.record twice) repeated.toList := by
    rw [show repeated.toList = render (.record twice) by decide +kernel]
    exact Value.Whole.spells (.record (by simp [twice, Value.Whole.text]))
  refine ⟨((read_in_every_layout hspells).1 _ (by decide) ?_).1,
    ((read_in_every_layout hrepeated).2 (.inl (.inl ⟨"proof", by decide, by decide⟩))).1⟩
  exact {
    transactions := holds_of_nodup (by decide) (by simp)
      ⟨[transaction], rfl, .cons htransaction .nil⟩
    proof := holds_of_nodup (by decide) (by simp) rfl
    origin := holds_of_nodup (by decide) (by simp [NodeId.toJson]) rfl
    timestamp := .inr ⟨by decide, rfl⟩
    signedUpdate := .inr ⟨by decide, rfl⟩
    backedResponses := .inr ⟨by decide, rfl⟩
    backedProofs := .inr ⟨by decide, rfl⟩ }

end Event

end ShardGossip
