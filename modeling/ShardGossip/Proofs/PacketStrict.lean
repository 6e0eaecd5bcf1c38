import Mathlib.Data.List.Induction
import ShardGossip.Proofs.PacketRoundTrip

/-!
# ShardGossip.Proofs.PacketStrict

**Bytes are a packet as a whole or not at all** (`decode_strict`). The wire form of a packet without
its last bytes is reported as truncated, and with more bytes after it as having these to spare.
Packets whose bodies hold no JSON have one wire form only: each reader of a part says from which
bytes it can have read what it gives.
-/

namespace ShardGossip

namespace Bytes

theorem toNat_lt (bytes : Bytes) : bytes.toNat < Nat.pow 256 bytes.length := by
  induction bytes using List.reverseRecOn with
  | nil => decide
  | append_singleton bytes byte ih =>
      have hb := byte.toNat_lt
      have hp : Nat.pow 256 (bytes.length + 1) = Nat.pow 256 bytes.length * 256 := rfl
      rw [toNat_concat, List.length_append, List.length_singleton, hp]
      omega

/-- A number has one form of each width. -/
theorem ofNat_toNat (bytes : Bytes) : ofNat bytes.length bytes.toNat = bytes := by
  induction bytes using List.reverseRecOn with
  | nil => rfl
  | append_singleton bytes byte ih =>
      have hb := byte.toNat_lt
      rw [toNat_concat, List.length_append, List.length_singleton, ofNat,
        show (toNat bytes * 256 + byte.toNat) / 256 = toNat bytes by omega, ih,
        show (toNat bytes * 256 + byte.toNat) % 256 = byte.toNat by omega, UInt8.ofNat_toNat]

end Bytes

namespace Packet

/-! ### What was read -/

section Read

variable {bytes rest : Bytes}

theorem of_takeBytes {count : Nat} {taken : Bytes}
    (h : takeBytes count bytes = .ok (taken, rest)) :
    taken.length = count ∧ bytes = taken ++ rest := by
  unfold takeBytes at h
  split at h
  · cases h
  · next hl =>
    cases h
    exact ⟨List.length_take_of_le (Nat.le_of_not_lt hl), (List.take_append_drop _ _).symm⟩

theorem of_takeNumber {n : Nat} (h : takeNumber bytes = .ok (n, rest)) :
    n < Nat.pow 2 64 ∧ bytes = Bytes.ofNat 8 n ++ rest := by
  obtain ⟨⟨number, _⟩, ht, h⟩ := bind_eq_ok.mp h
  cases h
  obtain ⟨hl, rfl⟩ := of_takeBytes ht
  have hn := number.toNat_lt
  have ho := number.ofNat_toNat
  rw [hl] at hn ho
  exact ⟨hn, by rw [ho]⟩

theorem of_takeField {value : Bytes} (h : takeField bytes = .ok (value, rest)) :
    value.length < Nat.pow 2 32 ∧ bytes = framed value ++ rest := by
  obtain ⟨⟨length, more⟩, hlength, hvalue⟩ := bind_eq_ok.mp h
  obtain ⟨hl, rfl⟩ := of_takeBytes hlength
  obtain ⟨hv, rfl⟩ := of_takeBytes hvalue
  have hn := length.toNat_lt
  have ho := length.ofNat_toNat
  rw [hl, ← hv] at hn ho
  exact ⟨hn, by rw [framed, ho, List.append_assoc]⟩

theorem of_takeText {text : String} (h : takeText bytes = .ok (text, rest)) :
    (Utf8.encode text).length < Nat.pow 2 32 ∧ bytes = framed (Utf8.encode text) ++ rest := by
  obtain ⟨⟨value, more⟩, hf, h⟩ := bind_eq_ok.mp h
  cases hd : Utf8.decode value with
  | error fault =>
      dsimp only at h
      rw [hd] at h
      cases h
  | ok read =>
      dsimp only at h
      rw [hd] at h
      cases h
      rw [Utf8.decode_eq_ok] at hd
      exact hd ▸ of_takeField hf

end Read

/-- The tags of the packets whose bodies hold no JSON. -/
def plainTags : List UInt8 := [0x00, 0x02, 0x03, 0x04, 0x05, 0xFF]

/-- A body without JSON has one form. -/
theorem of_takeBody {tag : UInt8} {p : Packet} {bytes rest : Bytes} (hp : p.tag ∈ plainTags)
    (h : takeBody tag bytes = .ok (p, rest)) :
    tag = p.tag ∧ p.InRange ∧ p.Fits ∧ bytes = p.layout ++ rest := by
  unfold takeBody at h
  -- One case for each tag, in the order in which the reader asks for them.
  split at h
  · next ht =>
    obtain ⟨⟨node, _⟩, hnode, h⟩ := bind_eq_ok.mp h
    obtain ⟨⟨shard, _⟩, hshard, h⟩ := bind_eq_ok.mp h
    cases h
    obtain ⟨hf, rfl⟩ := of_takeText hnode
    obtain ⟨hn, rfl⟩ := of_takeNumber hshard
    exact ⟨ht, List.forall_mem_singleton.mpr hn, List.forall_mem_singleton.mpr hf,
      (List.append_assoc ..).symm⟩
  split at h
  · obtain ⟨⟨signature, _⟩, -, h⟩ := bind_eq_ok.mp h
    obtain ⟨⟨event, _⟩, -, h⟩ := bind_eq_ok.mp h
    cases h
    exact absurd (show 0x01 ∈ plainTags from hp) (by decide)
  split at h
  · next ht =>
    obtain ⟨⟨proof, _⟩, hproof, h⟩ := bind_eq_ok.mp h
    cases h
    obtain ⟨hf, rfl⟩ := of_takeText hproof
    exact ⟨ht, List.forall_mem_nil _, List.forall_mem_singleton.mpr hf, rfl⟩
  split at h
  · next ht =>
    obtain ⟨⟨proof, _⟩, hproof, h⟩ := bind_eq_ok.mp h
    cases h
    obtain ⟨hf, rfl⟩ := of_takeText hproof
    exact ⟨ht, List.forall_mem_nil _, List.forall_mem_singleton.mpr hf, rfl⟩
  split at h
  · next ht =>
    obtain ⟨⟨signature, _⟩, hsignature, h⟩ := bind_eq_ok.mp h
    obtain ⟨⟨round, _⟩, hround, h⟩ := bind_eq_ok.mp h
    obtain ⟨⟨proof, _⟩, hproof, h⟩ := bind_eq_ok.mp h
    cases h
    obtain ⟨hs, rfl⟩ := of_takeField hsignature
    obtain ⟨hn, rfl⟩ := of_takeNumber hround
    obtain ⟨hf, rfl⟩ := of_takeText hproof
    exact ⟨ht, List.forall_mem_singleton.mpr hn,
      List.forall_mem_cons.mpr ⟨hs, List.forall_mem_singleton.mpr hf⟩, by simp [layout]⟩
  split at h
  · next ht =>
    obtain ⟨⟨round, _⟩, hround, h⟩ := bind_eq_ok.mp h
    cases h
    obtain ⟨hn, rfl⟩ := of_takeNumber hround
    exact ⟨ht, List.forall_mem_singleton.mpr hn, List.forall_mem_nil _, rfl⟩
  split at h
  · obtain ⟨⟨round, _⟩, -, h⟩ := bind_eq_ok.mp h
    obtain ⟨⟨events, _⟩, -, h⟩ := bind_eq_ok.mp h
    cases h
    exact absurd (show 0xA1 ∈ plainTags from hp) (by decide)
  split at h
  · obtain ⟨⟨transactions, _⟩, -, h⟩ := bind_eq_ok.mp h
    cases h
    exact absurd (show 0xA2 ∈ plainTags from hp) (by decide)
  split at h
  · next ht =>
    cases h
    exact ⟨ht, List.forall_mem_nil _, List.forall_mem_nil _, rfl⟩
  · cases h

/-- Without its last bytes no packet is read. -/
theorem decode_front {p : Packet} (hn : p.InRange) (hf : p.Fits) {front rest : Bytes}
    (h : front ++ rest = p.tag :: p.layout) (hr : rest ≠ []) :
    if front = [] then decode front = .error .empty else Truncated (decode front) := by
  cases front with
  | nil => rfl
  | cons tag front =>
      obtain ⟨rfl, hb⟩ := List.cons_eq_cons.mp h
      rw [if_neg (List.cons_ne_nil _ _), decode]
      exact ((takes_body hn hf).cut hb hr).bind _

/-- **A packet is all of its wire form and no more, and one without JSON has no other.** -/
theorem decode_strict :
    (∀ (p : Packet) (bytes : Bytes), p.InRange → p.encode = .ok bytes →
      (∀ front rest, front ++ rest = bytes → rest ≠ [] →
        if front = [] then decode front = .error .empty else Truncated (decode front)) ∧
      ∀ extra, extra ≠ [] → decode (bytes ++ extra) = .error (.trailingBytes extra.length)) ∧
    ∀ (p : Packet) (bytes : Bytes), p.tag ∈ plainTags →
      (decode bytes = .ok p ↔ p.InRange ∧ p.encode = .ok bytes) := by
  refine ⟨fun p bytes hn he => ?_, fun p bytes hp => ⟨fun hd => ?_, fun ⟨hn, he⟩ => ?_⟩⟩
  · obtain ⟨hf, rfl⟩ := encode_eq_ok.mp he
    refine ⟨fun front rest h hr => decode_front hn hf h hr, fun extra hx => ?_⟩
    rw [decode_append hn hf, if_neg (by simpa using hx)]
  · cases bytes with
    | nil => cases hd
    | cons tag bytes =>
        obtain ⟨⟨q, rest⟩, hb, hd⟩ := bind_eq_ok.mp hd
        dsimp only at hd
        split at hd
        · next hr =>
          cases hd
          obtain ⟨rfl, hn, hf, rfl⟩ := of_takeBody hp hb
          rw [List.isEmpty_iff.mp hr, List.append_nil]
          exact ⟨hn, encode_eq_ok.mpr ⟨hf, rfl⟩⟩
        · cases hd
  · obtain ⟨hf, rfl⟩ := encode_eq_ok.mp he
    have hd := decode_append hn hf []
    rwa [List.append_nil] at hd

/-- A vote without its last two bytes, with one to spare, and as it is. -/
theorem decode_strict_vote :
    let p := vote 7 [1, 2] "5-a"
    let bytes := [4, 0, 0, 0, 2, 1, 2, 0, 0, 0, 0, 0, 0, 0, 7, 0, 0, 0, 3, 53, 45, 97]
    p.encode = .ok bytes ∧ Truncated (decode (bytes.take 20)) ∧
      decode (bytes ++ [0]) = .error (.trailingBytes 1) ∧ decode bytes = .ok p := by
  intro p bytes
  have hn : p.InRange := List.forall_mem_singleton.mpr (by decide)
  have he : p.encode = .ok bytes := by decide
  have hs := decode_strict.1 p bytes hn he
  exact ⟨he, hs.1 (bytes.take 20) [45, 97] rfl (by decide), hs.2 [0] (by decide),
    (decode_strict.2 p bytes (by decide)).mpr ⟨hn, he⟩⟩

end Packet

end ShardGossip
