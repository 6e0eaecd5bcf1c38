import Mathlib.Data.List.Basic
import ShardGossip.Bytes.Utf8

/-!
# ShardGossip.Proofs.Utf8

**Reading text is the inverse of writing it.** Bytes that are written from a text are read as that
text, and bytes that are read as a text are the ones it is written from (`Utf8.decode_eq_ok`): every
text has one form in bytes. Both directions go through the bytes of a single character
(`Utf8.Sequence`).
-/

namespace ShardGossip.Utf8

open String

/-- The bytes of one character, as the reader takes them. -/
inductive Sequence : Char → Bytes → Prop where
  | one {a : UInt8} (ha : a < 0x80) : Sequence (Char.ofNat a.toNat) [a]
  | two {a b : UInt8} (ha : 0xC2 ≤ a ∧ a ≤ 0xDF) (hb : isContinuation b) :
      Sequence (char2 a b) [a, b]
  | three {a b c : UInt8} (ha : 0xE0 ≤ a ∧ a ≤ 0xEF) (hb : mayFollowThree a b)
      (hc : isContinuation c) : Sequence (char3 a b c) [a, b, c]
  | four {a b c d : UInt8} (ha : 0xF0 ≤ a ∧ a ≤ 0xF4) (hb : mayFollowFour a b)
      (hc : isContinuation c) (hd : isContinuation d) : Sequence (char4 a b c d) [a, b, c, d]

theorem isContinuation_iff {byte : UInt8} :
    isContinuation byte ↔ 0x80 ≤ byte.toNat ∧ byte.toNat ≤ 0xBF := by
  simp [isContinuation, UInt8.le_iff_toNat_le]

theorem between_iff {low high byte : UInt8} :
    low ≤ byte ∧ byte ≤ high ↔ low.toNat ≤ byte.toNat ∧ byte.toNat ≤ high.toNat := by
  simp [UInt8.le_iff_toNat_le]

theorem mayFollowThree_iff {a b : UInt8} :
    mayFollowThree a b ↔ 0x80 ≤ b.toNat ∧ b.toNat ≤ 0xBF ∧ (a.toNat = 0xE0 → 0xA0 ≤ b.toNat) ∧
      (a.toNat = 0xED → b.toNat ≤ 0x9F) := by
  simp only [mayFollowThree, isContinuation, ← UInt8.toNat_inj, UInt8.le_iff_toNat_le]
  grind

theorem mayFollowFour_iff {a b : UInt8} :
    mayFollowFour a b ↔ 0x80 ≤ b.toNat ∧ b.toNat ≤ 0xBF ∧ (a.toNat = 0xF0 → 0x90 ≤ b.toNat) ∧
      (a.toNat = 0xF4 → b.toNat ≤ 0x8F) := by
  simp only [mayFollowFour, isContinuation, ← UInt8.toNat_inj, UInt8.le_iff_toNat_le]
  grind

theorem toNat_ofNat {n : Nat} (h : n < 0xD800 ∨ 0xDFFF < n ∧ n < 0x110000) :
    (Char.ofNat n).val.toNat = n := by
  rw [Char.ofNat, dif_pos h]
  rfl

/-- What the reader takes for a character is what the writer makes of it. -/
theorem Sequence.eq {c : Char} {bytes : Bytes} (h : Sequence c bytes) :
    utf8EncodeChar c = bytes := by
  unfold utf8EncodeChar
  cases h with
  | @one a ha =>
      have ha : a.toNat < 0x80 := by simpa [UInt8.lt_iff_toNat_lt] using ha
      rw [toNat_ofNat (by omega)]
      dsimp only
      rw [if_pos (by omega), UInt8.ofNat_toNat]
  | @two a b ha hb =>
      rw [between_iff] at ha
      rw [isContinuation_iff] at hb
      simp at ha
      rw [char2, toNat_ofNat (by omega)]
      dsimp only
      rw [if_neg (by omega), if_pos (by omega)]
      simp [← UInt8.toNat_inj]
      omega
  | @three a b c ha hb hc =>
      rw [between_iff] at ha
      rw [mayFollowThree_iff] at hb
      rw [isContinuation_iff] at hc
      simp at ha
      rw [char3, toNat_ofNat (by omega)]
      dsimp only
      rw [if_neg (by omega), if_neg (by omega), if_pos (by omega)]
      simp [← UInt8.toNat_inj]
      omega
  | @four a b c d ha hb hc hd =>
      rw [between_iff] at ha
      rw [mayFollowFour_iff] at hb
      rw [isContinuation_iff] at hc hd
      simp at ha
      rw [char4, toNat_ofNat (by omega)]
      dsimp only
      rw [if_neg (by omega), if_neg (by omega), if_neg (by omega)]
      simp [← UInt8.toNat_inj]
      omega

/-- No byte of a longer character is a character of its own. -/
theorem Sequence.mem {c : Char} {bytes : Bytes} (h : Sequence c bytes) {byte : UInt8}
    (hb : byte ∈ bytes) : 0x80 ≤ byte ∨ c = Char.ofNat byte.toNat := by
  cases h with
  | one ha => exact .inr (by rw [List.mem_singleton.mp hb])
  | two ha hb' => grind [isContinuation]
  | three ha hb' hc => grind [isContinuation, mayFollowThree]
  | four ha hb' hc hd => grind [isContinuation, mayFollowFour]

theorem toNat_byte {n : Nat} (h : n < 256) : (UInt8.ofNat n).toNat = n :=
  Nat.mod_eq_of_lt h

/-- The reader takes what the writer makes of a character. -/
theorem sequence_encodeChar (c : Char) : Sequence c (utf8EncodeChar c) := by
  have hv : c.val.toNat < 0xD800 ∨ 0xDFFF < c.val.toNat ∧ c.val.toNat < 0x110000 := c.valid
  have of_eq {n : Nat} (h : n = c.val.toNat) : Char.ofNat n = c := h ▸ Char.ofNat_toNat c
  unfold utf8EncodeChar
  generalize hn : c.val.toNat = n at hv of_eq
  dsimp only
  split
  · next h1 =>
    have ha := toNat_byte (n := n) (by omega)
    have hs := Sequence.one (a := UInt8.ofNat n) (by simp [UInt8.lt_iff_toNat_lt, ha]; omega)
    rwa [of_eq (by rw [ha])] at hs
  split
  · next h1 h2 =>
    have ha := toNat_byte (n := n / 64 % 32 + 192) (by omega)
    have hb := toNat_byte (n := n % 64 + 128) (by omega)
    have hs := Sequence.two (a := UInt8.ofNat (n / 64 % 32 + 192)) (b := UInt8.ofNat (n % 64 + 128))
      (by rw [between_iff, ha]; simp; omega) (by rw [isContinuation_iff, hb]; omega)
    rwa [char2, of_eq (by omega)] at hs
  split
  · next h1 h2 h3 =>
    have ha := toNat_byte (n := n / 4096 % 16 + 224) (by omega)
    have hb := toNat_byte (n := n / 64 % 64 + 128) (by omega)
    have hc := toNat_byte (n := n % 64 + 128) (by omega)
    have hs := Sequence.three (a := UInt8.ofNat (n / 4096 % 16 + 224))
      (b := UInt8.ofNat (n / 64 % 64 + 128)) (c := UInt8.ofNat (n % 64 + 128))
      (by rw [between_iff, ha]; simp; omega) (by rw [mayFollowThree_iff, ha, hb]; omega)
      (by rw [isContinuation_iff, hc]; omega)
    rwa [char3, of_eq (by omega)] at hs
  · next h1 h2 h3 =>
    have ha := toNat_byte (n := n / 262144 % 8 + 240) (by omega)
    have hb := toNat_byte (n := n / 4096 % 64 + 128) (by omega)
    have hc := toNat_byte (n := n / 64 % 64 + 128) (by omega)
    have hd := toNat_byte (n := n % 64 + 128) (by omega)
    have hs := Sequence.four (a := UInt8.ofNat (n / 262144 % 8 + 240))
      (b := UInt8.ofNat (n / 4096 % 64 + 128)) (c := UInt8.ofNat (n / 64 % 64 + 128))
      (d := UInt8.ofNat (n % 64 + 128))
      (by rw [between_iff, ha]; simp; omega) (by rw [mayFollowFour_iff, ha, hb]; omega)
      (by rw [isContinuation_iff, hc]; omega) (by rw [isContinuation_iff, hd]; omega)
    rwa [char4, of_eq (by omega)] at hs

/-! ### Texts -/

/-- Reading a character leaves what follows it. -/
theorem decodeFrom_sequence {c : Char} {bytes : Bytes} (h : Sequence c bytes) (index : Nat)
    (before : List Char) (rest : Bytes) :
    decodeFrom index before (bytes ++ rest) =
      decodeFrom (index + bytes.length) (c :: before) rest := by
  rw [decodeFrom.eq_def]
  cases h with
  | one ha => simp [ha]
  | @two a b ha hb =>
      have h1 : ¬a < 0x80 := by grind
      simp [h1, ha, hb]
  | @three a b c ha hb hc =>
      have h1 : ¬a < 0x80 := by grind
      have h2 : ¬(0xC2 ≤ a ∧ a ≤ 0xDF) := by grind
      simp only [List.cons_append, if_neg h1, if_neg h2, if_pos ha]
      simp [hb, hc]
  | @four a b c d ha hb hc hd =>
      have h1 : ¬a < 0x80 := by grind
      have h2 : ¬(0xC2 ≤ a ∧ a ≤ 0xDF) := by grind
      have h3 : ¬(0xE0 ≤ a ∧ a ≤ 0xEF) := by grind
      simp only [List.cons_append, if_neg h1, if_neg h2, if_neg h3, if_pos ha]
      simp [hb, hc, hd]

theorem decodeFrom_flatMap (index : Nat) (before chars : List Char) :
    decodeFrom index before (chars.flatMap utf8EncodeChar) = .ok (before.reverse ++ chars) := by
  induction chars generalizing index before with
  | nil => simp [decodeFrom]
  | cons c rest ih =>
      rw [List.flatMap_cons, decodeFrom_sequence (sequence_encodeChar c), ih]
      simp

/-- What was read is what the bytes are written from. -/
theorem decodeFrom_eq_ok {index : Nat} {before chars : List Char} {bytes : Bytes}
    (h : decodeFrom index before bytes = .ok chars) :
    ∃ cs, chars = before.reverse ++ cs ∧ cs.flatMap utf8EncodeChar = bytes := by
  have next {before : List Char} {c : Char} {first rest : Bytes} (hs : Sequence c first)
      (ih : ∃ cs, chars = (c :: before).reverse ++ cs ∧ cs.flatMap utf8EncodeChar = rest) :
      ∃ cs, chars = before.reverse ++ cs ∧ cs.flatMap utf8EncodeChar = first ++ rest := by
    obtain ⟨cs, rfl, rfl⟩ := ih
    exact ⟨c :: cs, by simp, by rw [List.flatMap_cons, hs.eq]⟩
  fun_induction decodeFrom index before bytes with
  | case1 => exact ⟨[], by simpa using h.symm, rfl⟩
  | case2 index before a rest ha ih => exact next (.one ha) (ih h)
  | case4 index before a hlt ha b rest hb ih => exact next (.two ha hb) (ih h)
  | case9 index before a hlt h2 ha b hb c rest hc ih =>
      exact next (.three ha (by simpa using hb) hc) (ih h)
  | case16 index before a hlt h2 h3 ha b hb c hc d rest hd ih =>
      exact next (.four ha (by simpa using hb) (by simpa using hc) hd) (ih h)
  | _ => cases h

/-- **Bytes are the text that they are written from, and no other bytes are a text.** -/
theorem decode_eq_ok {bytes : Bytes} {text : String} :
    decode bytes = .ok text ↔ bytes = encode text := by
  unfold decode encode
  constructor
  · intro h
    cases hd : decodeFrom 0 [] bytes with
    | error e =>
        rw [hd] at h
        cases h
    | ok chars =>
        rw [hd] at h
        obtain ⟨cs, rfl, rfl⟩ := decodeFrom_eq_ok hd
        cases h
        simp
  · rintro rfl
    simp [decodeFrom_flatMap, Except.map]

end ShardGossip.Utf8
