import Mathlib.Data.List.Basic
import ShardGossip.Packet.Wire
import ShardGossip.Proofs.EventText

/-!
# ShardGossip.Proofs.PacketRoundTrip

**A packet is read from its wire form as it was.** A packet has a wire form if and only if each of
its fields fits its length (`encode_eq_ok`), and this form is then read as the packet
(`decode_encode`).

What the reader of one part of a body does with the bytes of that part is `Takes`: it reads them
whole whatever follows, and of no fewer bytes does it make anything. Readers that come one after
another take parts that come one after another (`Takes.bind`), so a body is read as its parts are.
-/

namespace ShardGossip.Packet

/-! ### Readers -/

section Readers

variable {α β : Type} {read : Bytes → Except DecodeError (α × Bytes)}
  {s : α → Bytes → Except DecodeError (β × Bytes)} {x : α} {y : β} {a b : Bytes}

/-- The bytes ended too early. -/
def Truncated (result : Except DecodeError α) : Prop :=
  ∃ needed available, available < needed ∧ result = .error (.truncated needed available)

theorem Truncated.bind {result : Except DecodeError α} (h : Truncated result)
    (f : α → Except DecodeError β) : Truncated (result >>= f) := by
  obtain ⟨needed, available, hlt, rfl⟩ := h
  exact ⟨needed, available, hlt, rfl⟩

/-- The bytes `a` are read as the value `x` whatever follows them, and fewer are too few. -/
structure Takes (read : Bytes → Except DecodeError (α × Bytes)) (x : α) (a : Bytes) : Prop where
  whole (rest : Bytes) : read (a ++ rest) = .ok (x, rest)
  cut {front rest : Bytes} (h : front ++ rest = a) (hr : rest ≠ []) : Truncated (read front)

/-- Reads a part and then what follows it. -/
def following (read : Bytes → Except DecodeError (α × Bytes))
    (s : α → Bytes → Except DecodeError (β × Bytes)) (bytes : Bytes) :
    Except DecodeError (β × Bytes) := do
  let (x, rest) ← read bytes
  s x rest

theorem Takes.bind (h : Takes read x a) (hs : Takes (s x) y b) :
    Takes (following read s) y (a ++ b) where
  whole rest := by
    rw [following, List.append_assoc, h.whole]
    exact hs.whole rest
  cut {front rest} he hr := by
    have second (c : Bytes) (hc : c ++ rest = b) : Truncated (following read s (a ++ c)) := by
      rw [following, h.whole]
      exact hs.cut hc hr
    -- the bytes end inside the first part, or after it: at the border nothing of the second is left
    rcases List.append_eq_append_iff.mp he with ⟨c, rfl, rfl⟩ | ⟨c, rfl, hc⟩
    · by_cases hc : c = []
      · subst hc
        have hs := second [] rfl
        rwa [List.append_nil, List.append_nil] at hs
      · exact (h.cut rfl hc).bind _
    · exact second c hc.symm

/-- Reads a part and makes something of it. -/
def reading (read : Bytes → Except DecodeError (α × Bytes)) (f : α → β) (bytes : Bytes) :
    Except DecodeError (β × Bytes) := do
  let (x, rest) ← read bytes
  return (f x, rest)

theorem Takes.map (h : Takes read x a) (f : α → β) : Takes (reading read f) (f x) a where
  whole rest := by
    rw [reading, h.whole]
    rfl
  cut he hr := (h.cut he hr).bind _

theorem takes_bytes (bytes : Bytes) : Takes (takeBytes bytes.length) bytes bytes where
  whole rest := by
    rw [takeBytes, if_neg (by simp), List.take_left, List.drop_left]
  cut {front rest} h hr := by
    have hl : front.length < bytes.length := by
      have := List.length_pos_iff.mpr hr
      rw [← h, List.length_append]
      omega
    exact ⟨_, _, hl, if_pos hl⟩

theorem takes_number {n : Nat} (h : n < Nat.pow 2 64) : Takes takeNumber n (Bytes.ofNat 8 n) := by
  have hb := takes_bytes (Bytes.ofNat 8 n)
  rw [Bytes.length_ofNat] at hb
  have hn := hb.map Bytes.toNat
  rw [Bytes.toNat_ofNat, Nat.mod_eq_of_lt h] at hn
  exact hn

/-- A field with its length in front, however long it is. -/
def framed (bytes : Bytes) : Bytes := Bytes.ofNat 4 bytes.length ++ bytes

theorem field_eq_ok {bytes written : Bytes} :
    field bytes = .ok written ↔ bytes.length < Nat.pow 2 32 ∧ written = framed bytes := by
  unfold field framed
  split
  · next h => simp [h, eq_comm]
  · next h => exact ⟨nofun, fun h' => absurd h'.1 h⟩

theorem takes_field {bytes : Bytes} (h : bytes.length < Nat.pow 2 32) :
    Takes takeField bytes (framed bytes) := by
  have hb := takes_bytes (Bytes.ofNat 4 bytes.length)
  rw [Bytes.length_ofNat] at hb
  have hn : Takes (takeBytes (Bytes.toNat (Bytes.ofNat 4 bytes.length))) bytes bytes := by
    rw [Bytes.toNat_ofNat, Nat.mod_eq_of_lt h]
    exact takes_bytes bytes
  exact hb.bind (s := fun length => takeBytes (Bytes.toNat length)) hn

theorem takes_text {text : String} (h : (Utf8.encode text).length < Nat.pow 2 32) :
    Takes takeText text (framed (Utf8.encode text)) where
  whole rest := by
    have hd : Utf8.decode (Utf8.encode text) = .ok text := Utf8.decode_eq_ok.mpr rfl
    simp only [takeText, (takes_field h).whole, bind, Except.bind, hd]
    rfl
  cut he hr := ((takes_field h).cut he hr).bind _

theorem takes_json {read : Bytes → Option α} {bytes : Bytes} (hx : read bytes = some x)
    (h : bytes.length < Nat.pow 2 32) : Takes (takeJson read) x (framed bytes) where
  whole rest := by
    simp only [takeJson, (takes_field h).whole, bind, Except.bind, hx]
    rfl
  cut he hr := ((takes_field h).cut he hr).bind _

end Readers

/-! ### Bodies -/

/-- The numbers of 64 bits in a packet. -/
def numbers : Packet → List Nat
  | hello _ shard => [shard.number]
  | propose _ event => [event.timestamp]
  | vote round .. => [round]
  | electorReady round => [round]
  | overwriteEvents round events => round :: events.map (·.timestamp)
  | ack _ | finalize _ | appendTransactions _ | received => []

/-- Every number of 64 bits is one. -/
def InRange (p : Packet) : Prop := ∀ n ∈ p.numbers, n < Nat.pow 2 64

/-- The fields of any length in a packet. -/
def fields : Packet → List Bytes
  | hello node _ => [Utf8.encode node.name]
  | propose signature event => [signature, event.encode]
  | ack proof => [Utf8.encode proof]
  | finalize proof => [Utf8.encode proof]
  | vote _ signature proof => [signature, Utf8.encode proof]
  | overwriteEvents _ events => [Event.encodeList events]
  | appendTransactions transactions => [Transaction.encodeList transactions]
  | electorReady _ | received => []

/-- Every field is short enough for its length to be written. -/
def Fits (p : Packet) : Prop := ∀ f ∈ p.fields, f.length < Nat.pow 2 32

/-- The body of a packet, however long its fields are. -/
def layout : Packet → Bytes
  | hello node shard => framed (Utf8.encode node.name) ++ Bytes.ofNat 8 shard.number
  | propose signature event => framed signature ++ framed event.encode
  | ack proof => framed (Utf8.encode proof)
  | finalize proof => framed (Utf8.encode proof)
  | vote round signature proof =>
    framed signature ++ (Bytes.ofNat 8 round ++ framed (Utf8.encode proof))
  | electorReady round => Bytes.ofNat 8 round
  | overwriteEvents round events => Bytes.ofNat 8 round ++ framed (Event.encodeList events)
  | appendTransactions transactions => framed (Transaction.encodeList transactions)
  | received => []

theorem body_eq_ok {p : Packet} {bytes : Bytes} :
    p.body = .ok bytes ↔ p.Fits ∧ bytes = p.layout := by
  cases p with
  | ack _ | finalize _ | appendTransactions _ => simp [body, Fits, fields, layout, field_eq_ok]
  | _ =>
      rw [eq_comm (a := bytes)]
      simp [body, Fits, fields, layout, bind_eq_ok, field_eq_ok, pure, Except.pure, and_assoc]

/-- **A packet has a wire form if and only if all its fields fit.** -/
theorem encode_eq_ok {p : Packet} {bytes : Bytes} :
    p.encode = .ok bytes ↔ p.Fits ∧ bytes = p.tag :: p.layout := by
  simp only [encode, bind_eq_ok, body_eq_ok, pure, Except.pure, Except.ok.injEq]
  constructor
  · rintro ⟨_, ⟨hf, rfl⟩, rfl⟩
    exact ⟨hf, rfl⟩
  · rintro ⟨hf, rfl⟩
    exact ⟨_, ⟨hf, rfl⟩, rfl⟩

theorem takes_body {p : Packet} (hn : p.InRange) (hf : p.Fits) :
    Takes (takeBody p.tag) p p.layout := by
  unfold InRange at hn
  unfold Fits at hf
  cases p with
  | hello node shard =>
      rw [numbers, List.forall_mem_singleton] at hn
      rw [fields, List.forall_mem_singleton] at hf
      exact (takes_text hf).bind (s := fun name => reading takeNumber fun n => hello ⟨name⟩ ⟨n⟩)
        ((takes_number hn).map _)
  | propose signature event =>
      rw [numbers, List.forall_mem_singleton] at hn
      rw [fields, List.forall_mem_cons, List.forall_mem_singleton] at hf
      exact (takes_field hf.1).bind (s := fun signature => reading (takeJson _) (propose signature))
        ((takes_json (Event.decode?_encode hn) hf.2).map _)
  | ack proof =>
      rw [fields, List.forall_mem_singleton] at hf
      exact (takes_text hf).map ack
  | finalize proof =>
      rw [fields, List.forall_mem_singleton] at hf
      exact (takes_text hf).map finalize
  | vote round signature proof =>
      rw [numbers, List.forall_mem_singleton] at hn
      rw [fields, List.forall_mem_cons, List.forall_mem_singleton] at hf
      exact (takes_field hf.1).bind
        (s := fun signature => following takeNumber fun n => reading takeText (vote n signature))
        ((takes_number hn).bind ((takes_text hf.2).map _))
  | electorReady round =>
      rw [numbers, List.forall_mem_singleton] at hn
      exact (takes_number hn).map electorReady
  | overwriteEvents round events =>
      rw [numbers, List.forall_mem_cons, List.forall_mem_map] at hn
      rw [fields, List.forall_mem_singleton] at hf
      exact (takes_number hn.1).bind (s := fun n => reading (takeJson _) (overwriteEvents n))
        ((takes_json (Event.decodeList?_encodeList hn.2) hf).map _)
  | appendTransactions transactions =>
      rw [fields, List.forall_mem_singleton] at hf
      exact (takes_json (Transaction.decodeList?_encodeList transactions) hf).map appendTransactions
  | received => exact ⟨fun _ => rfl, fun h hr => absurd (List.append_eq_nil_iff.mp h).2 hr⟩

/-! ### Packets -/

/-- What follows a packet is all that keeps it from being read. -/
theorem decode_append {p : Packet} (hn : p.InRange) (hf : p.Fits) (rest : Bytes) :
    decode (p.tag :: p.layout ++ rest) =
      if rest.isEmpty then .ok p else .error (.trailingBytes rest.length) := by
  rw [List.cons_append, decode, (takes_body hn hf).whole]
  rfl

/-- **A packet is read from its wire form as it was.** -/
theorem decode_encode {p : Packet} (hn : p.InRange) (hf : p.Fits) :
    ∃ bytes, p.encode = .ok bytes ∧ decode bytes = .ok p := by
  refine ⟨p.tag :: p.layout, encode_eq_ok.mpr ⟨hf, rfl⟩, ?_⟩
  have hd := decode_append hn hf []
  rwa [List.append_nil] at hd

set_option maxRecDepth 1000 in
/-- An event that was acknowledged and voted for, with quotes and a line break in a kind. -/
theorem decode_encode_propose :
    let event := ((Event.sealed ⟨"a"⟩ 5 [⟨"x \"y\"\n", [0, 255], some "c"⟩]).recordAck
      ⟨"b"⟩).recordBallot ⟨"c"⟩ [15]
    ∃ bytes, (propose [1] event).encode = .ok bytes ∧ decode bytes = .ok (propose [1] event) :=
  decode_encode (List.forall_mem_singleton.mpr (by decide))
    (List.forall_mem_cons.mpr ⟨by decide, List.forall_mem_singleton.mpr (by decide +kernel)⟩)

end ShardGossip.Packet
