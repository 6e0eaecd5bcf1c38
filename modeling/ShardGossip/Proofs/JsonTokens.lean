import ShardGossip.Json.Reader
import ShardGossip.Proofs.JsonGrammar
import ShardGossip.Proofs.Utf8

/-!
# ShardGossip.Proofs.JsonTokens

**Strings and numbers are read from every way to write them** (`Inside.reads_text`,
`readUnsigned_decimal`). Each rule for a character inside a string meets one branch of the reader.
The least obvious is half of a surrogate pair that stands alone: the reader looks six bytes ahead,
and these complete the pair only if they escape the second half (`lowSurrogate?_of_alone`).
-/

namespace ShardGossip.Json

open String

/-- The bytes of a text. -/
def bytesOf (chars : List Char) : Bytes := chars.flatMap utf8EncodeChar

@[simp] theorem bytesOf_nil : bytesOf [] = [] := rfl

@[simp] theorem bytesOf_cons (c : Char) (chars : List Char) :
    bytesOf (c :: chars) = utf8EncodeChar c ++ bytesOf chars := List.flatMap_cons

@[simp] theorem bytesOf_append (chars others : List Char) :
    bytesOf (chars ++ others) = bytesOf chars ++ bytesOf others := List.flatMap_append

theorem length_le_bytesOf (chars : List Char) : chars.length ≤ (bytesOf chars).length := by
  induction chars with
  | nil => exact Nat.le_refl 0
  | cons c rest ih =>
      have := List.length_pos_iff.mpr (utf8EncodeChar_ne_nil (c := c))
      rw [bytesOf_cons, List.length_append, List.length_cons]
      omega

/-! ### Strings -/

/-- Bytes that stand for themselves inside a string. -/
def IsPlain (byte : UInt8) : Prop := byte ≠ 34 ∧ byte ≠ 92 ∧ ¬byte < 32

theorem readString_plain {bytes : Bytes} (h : ∀ byte ∈ bytes, IsPlain byte) (whole : Bool)
    (before rest : Bytes) :
    readString whole before (bytes ++ rest) = readString whole (bytes.reverse ++ before) rest := by
  induction bytes generalizing before with
  | nil => rfl
  | cons byte more ih =>
      obtain ⟨h1, h2, h3⟩ := h byte List.mem_cons_self
      rw [List.cons_append, readString.eq_def]
      simp only [if_neg h1, if_neg h2, if_neg h3]
      rw [ih fun b hb => h b (List.mem_cons_of_mem _ hb)]
      simp

/-- All bytes of a character of more than one byte, and the byte of one that is neither a control
character nor a quote nor a backslash. -/
theorem isPlain_of_mem {c : Char} (hq : c ≠ '"') (hs : c ≠ '\\') (hc : ¬c.toNat < 0x20)
    {byte : UInt8} (h : byte ∈ utf8EncodeChar c) : IsPlain byte := by
  rcases (Utf8.sequence_encodeChar c).mem h with hb | rfl
  · unfold IsPlain; grind
  · refine ⟨?_, ?_, fun hlt => hc ?_⟩
    · rintro rfl
      exact hq rfl
    · rintro rfl
      exact hs rfl
    · rw [UInt8.lt_iff_toNat_lt] at hlt
      rw [Char.toNat, Utf8.toNat_ofNat]
      · exact hlt
      · have := byte.toNat_lt
        omega

/-! ### Escapes -/

/-- A digit is one byte, and its value is read from it. -/
theorem hexValue?_of_isHexDigit {n : Nat} {c : Char} (h : IsHexDigit n c) :
    utf8EncodeChar c = [UInt8.ofNat c.toNat] ∧ hexValue? (UInt8.ofNat c.toNat) = some n := by
  have hall : (List.range 16).all fun n => [n.digitChar, n.digitChar.toUpper].all fun c =>
      utf8EncodeChar c = [UInt8.ofNat c.toNat] ∧ hexValue? (UInt8.ofNat c.toNat) = some n := by
    decide
  obtain ⟨hn, hc⟩ := h
  have hrow := List.all_eq_true.mp hall n (List.mem_range.mpr hn)
  exact of_decide_eq_true (List.all_eq_true.mp hrow c (by simpa using hc))

/-- The bytes of an escaped code unit. -/
theorem HexUnit.bytes {unit : Nat} {escape : List Char} (h : HexUnit unit escape) :
    ∃ a b c d, bytesOf escape = [92, 117, a, b, c, d] ∧ hexUnit? a b c d = some unit := by
  obtain ⟨ha, hb, hc, hd⟩ := h
  obtain ⟨ha, hi⟩ := hexValue?_of_isHexDigit ha
  obtain ⟨hb, hj⟩ := hexValue?_of_isHexDigit hb
  obtain ⟨hc, hk⟩ := hexValue?_of_isHexDigit hc
  obtain ⟨hd, hl⟩ := hexValue?_of_isHexDigit hd
  refine ⟨_, _, _, _, by simp only [bytesOf_cons, ha, hb, hc, hd]; rfl, ?_⟩
  simp only [hexUnit?, hi, hj, hk, hl]
  rfl

theorem shortForm_bytes {letter c : Char} (h : (letter, c) ∈ shortForms) :
    ∃ byte plain, utf8EncodeChar letter = [byte] ∧ byte ≠ 117 ∧ utf8EncodeChar c = [plain] ∧
      shortEscape? byte = some plain := by
  simp only [shortForms, List.mem_cons, Prod.mk.injEq, List.not_mem_nil, or_false] at h
  rcases h with ⟨rfl, rfl⟩ | ⟨rfl, rfl⟩ | ⟨rfl, rfl⟩ | ⟨rfl, rfl⟩ | ⟨rfl, rfl⟩ | ⟨rfl, rfl⟩ |
    ⟨rfl, rfl⟩ | ⟨rfl, rfl⟩ <;> exact ⟨_, _, rfl, by decide, rfl, rfl⟩

theorem isHighSurrogate_iff {unit : Nat} :
    isHighSurrogate unit ↔ 0xD800 ≤ unit ∧ unit < 0xDC00 := by
  simp only [isHighSurrogate, Bool.and_eq_true, decide_eq_true_eq]
  omega

theorem isLowSurrogate_iff {unit : Nat} :
    isLowSurrogate unit ↔ 0xDC00 ≤ unit ∧ unit < 0xE000 := by
  simp only [isLowSurrogate, Bool.and_eq_true, decide_eq_true_eq]
  omega

theorem isHighSurrogate_eq_false {unit : Nat} (h : isLowSurrogate unit) :
    isHighSurrogate unit = false := by
  rw [isLowSurrogate_iff] at h
  rw [Bool.eq_false_iff, ne_eq, isHighSurrogate_iff]
  omega

theorem isLowSurrogate_eq_false {unit : Nat} (h : isHighSurrogate unit) :
    isLowSurrogate unit = false := by
  rw [isHighSurrogate_iff] at h
  rw [Bool.eq_false_iff, ne_eq, isLowSurrogate_iff]
  omega

/-- No character is half of a surrogate pair. -/
theorem not_surrogate (c : Char) :
    isHighSurrogate c.toNat = false ∧ isLowSurrogate c.toNat = false := by
  have hvalid : c.toNat < 0xD800 ∨ 0xDFFF < c.toNat ∧ c.toNat < 0x110000 := c.valid
  rw [Bool.eq_false_iff, Bool.eq_false_iff, ne_eq, ne_eq, isHighSurrogate_iff, isLowSurrogate_iff]
  omega

/-- The two halves of the pair for a character. -/
theorem pair_halves {c : Char} (h : 0x10000 ≤ c.toNat) :
    isHighSurrogate (0xD800 + (c.toNat - 0x10000) / 0x400) ∧
      isLowSurrogate (0xDC00 + (c.toNat - 0x10000) % 0x400) ∧
      pairChar (0xD800 + (c.toNat - 0x10000) / 0x400) (0xDC00 + (c.toNat - 0x10000) % 0x400)
        = c := by
  have hvalid : c.toNat < 0xD800 ∨ 0xDFFF < c.toNat ∧ c.toNat < 0x110000 := c.valid
  rw [isHighSurrogate_iff, isLowSurrogate_iff, pairChar]
  refine ⟨by omega, by omega, ?_⟩
  rw [show 0x10000 + (0xD800 + (c.toNat - 0x10000) / 0x400 - 0xD800) * 1024 +
    (0xDC00 + (c.toNat - 0x10000) % 0x400 - 0xDC00) = c.toNat by omega, Char.ofNat_toNat]

section Escapes

variable {a b c d e f g h : UInt8} {unit low : Nat} {letter plain : UInt8}

theorem readString_short (hl : letter ≠ 117) (hp : shortEscape? letter = some plain) (whole : Bool)
    (before rest : Bytes) :
    readString whole before (92 :: letter :: rest) = readString whole (plain :: before) rest := by
  rw [readString.eq_def]
  simp [hl, hp]

theorem readString_unit (hu : hexUnit? a b c d = some unit) (hh : isHighSurrogate unit = false)
    (hl : isLowSurrogate unit = false) (whole : Bool) (before rest : Bytes) :
    readString whole before (92 :: 117 :: a :: b :: c :: d :: rest) =
      readString whole ((utf8EncodeChar (Char.ofNat unit)).reverse ++ before) rest := by
  rw [readString.eq_def]
  simp [hu, hh, hl]

theorem readString_pair (hu : hexUnit? a b c d = some unit) (hh : isHighSurrogate unit)
    (hv : hexUnit? e f g h = some low) (hl : isLowSurrogate low) (whole : Bool)
    (before rest : Bytes) :
    readString whole before
        (92 :: 117 :: a :: b :: c :: d :: 92 :: 117 :: e :: f :: g :: h :: rest) =
      readString whole ((utf8EncodeChar (pairChar unit low)).reverse ++ before) rest := by
  rw [readString.eq_def]
  simp [hu, hh, hv, hl, lowSurrogate?]

theorem readString_secondHalf (hu : hexUnit? a b c d = some unit) (hl : isLowSurrogate unit)
    (whole : Bool) (before rest : Bytes) :
    readString whole before (92 :: 117 :: a :: b :: c :: d :: rest) =
      readString false before rest := by
  rw [readString.eq_def]
  simp [hu, hl, isHighSurrogate_eq_false hl]

/-- A first half is alone if no second half is read after it. -/
theorem readString_firstHalf (hu : hexUnit? a b c d = some unit) (hh : isHighSurrogate unit)
    {rest : Bytes} (halone : ∀ slash u e f g h more, rest = slash :: u :: e :: f :: g :: h :: more →
      lowSurrogate? slash u e f g h = none) (whole : Bool) (before : Bytes) :
    readString whole before (92 :: 117 :: a :: b :: c :: d :: rest) =
      readString false before rest := by
  rw [readString.eq_def]
  simp only [hu, hh, reduceIte, show ¬(92 : UInt8) = 34 by decide]
  split
  case h_1 slash u e f g h more => rw [halone slash u e f g h more rfl]
  case h_2 => rfl

theorem lowSurrogate?_unit {slash u : UInt8} (hu : hexUnit? e f g h = some unit)
    (hl : isLowSurrogate unit = false) : lowSurrogate? slash u e f g h = none := by
  simp [lowSurrogate?, hu, hl]

end Escapes

/-- What follows a first half that is alone does not complete it. -/
theorem lowSurrogate?_of_alone {content : Option (List Char)} {text : List Char}
    (hinside : Inside content text) (halone : ¬SecondHalfNext text) {slash u e f g h : UInt8}
    {rest more : Bytes}
    (heq : bytesOf text ++ 34 :: rest = slash :: u :: e :: f :: g :: h :: more) :
    lowSurrogate? slash u e f g h = none := by
  -- Six bytes are an escaped unit only if the text begins with one.
  have hunit {unit : Nat} {escape more' : List Char} (hu : HexUnit unit escape)
      (htext : text = escape ++ more') (hl : isLowSurrogate unit = false) :
      lowSurrogate? slash u e f g h = none := by
    obtain ⟨a, b, c, d, hbytes, hvalue⟩ := hu.bytes
    rw [htext, bytesOf_append, hbytes] at heq
    simp only [List.cons_append, List.cons.injEq] at heq
    obtain ⟨-, -, rfl, rfl, rfl, rfl, -⟩ := heq
    exact lowSurrogate?_unit hvalue hl
  have hother (hne : ¬(slash = 92 ∧ u = 117)) : lowSurrogate? slash u e f g h = none :=
    if_neg hne
  cases hinside with
  | empty =>
      rw [bytesOf_nil, List.nil_append, List.cons.injEq] at heq
      exact hother fun he => absurd (heq.1.trans he.1) (by decide)
  | @plain c content text hquote hslash hcontrol _ =>
      obtain ⟨byte, bytes, hbytes⟩ := List.exists_cons_of_ne_nil (utf8EncodeChar_ne_nil (c := c))
      have hplain : IsPlain byte := isPlain_of_mem hquote hslash hcontrol (by simp [hbytes])
      rw [bytesOf_cons, hbytes, List.cons_append, List.cons_append, List.cons.injEq] at heq
      exact hother fun he => hplain.2.1 (heq.1.trans he.1)
  | short hform _ =>
      obtain ⟨byte, -, hletter, hbyte, -, -⟩ := shortForm_bytes hform
      have hslash : utf8EncodeChar '\\' = [92] := rfl
      rw [bytesOf_cons, bytesOf_cons, hletter, hslash] at heq
      simp only [List.cons_append, List.nil_append, List.cons.injEq] at heq
      exact hother fun he => hbyte (heq.2.1.trans he.2)
  | @unit c _ _ _ hu _ => exact hunit hu rfl (not_surrogate c).2
  | pair hc hfirst _ _ =>
      exact hunit hfirst (List.append_assoc ..) (isLowSurrogate_eq_false (pair_halves hc).1)
  | firstHalf hu hhalf _ _ =>
      exact hunit hu rfl (isLowSurrogate_eq_false (isHighSurrogate_iff.mpr hhalf))
  | secondHalf hu hhalf _ => exact absurd ⟨_, _, _, hu, hhalf.1, hhalf.2, rfl⟩ halone

/-- The inside of a string is read up to the closing quote. -/
theorem Inside.reads {content : Option (List Char)} {text : List Char} (h : Inside content text)
    (whole : Bool) (before rest : Bytes) :
    readString whole before (bytesOf text ++ 34 :: rest) =
      some (if whole then content.bind fun chars => Utf8.decode? (before.reverse ++ bytesOf chars)
        else none, rest) := by
  -- One more character in front is one that was read before.
  have hcons (content : Option (List Char)) (c : Char) (before : Bytes) :
      ((content.map (c :: ·)).bind fun chars => Utf8.decode? (before.reverse ++ bytesOf chars)) =
        content.bind fun chars =>
          Utf8.decode? (((utf8EncodeChar c).reverse ++ before).reverse ++ bytesOf chars) := by
    cases content <;> simp
  induction h generalizing whole before with
  | empty =>
      rw [bytesOf_nil, List.nil_append, readString.eq_def]
      simp
  | @plain c content text hquote hslash hcontrol _ ih =>
      have hplain := readString_plain
        (fun _ hb => isPlain_of_mem hquote hslash hcontrol hb) whole before
      rw [bytesOf_cons, List.append_assoc, hplain, ih, hcons]
  | @short letter c content text hform _ ih =>
      obtain ⟨byte, plain, hletter, hbyte, hc, hescape⟩ := shortForm_bytes hform
      have hslash : utf8EncodeChar '\\' = [92] := rfl
      rw [bytesOf_cons, bytesOf_cons, hletter, hslash]
      simp only [List.cons_append, List.nil_append]
      rw [readString_short hbyte hescape, ih, hcons, hc]
      rfl
  | @unit c escape content text hunit _ ih =>
      obtain ⟨_, _, _, _, hbytes, hvalue⟩ := hunit.bytes
      obtain ⟨hhigh, hlow⟩ := not_surrogate c
      rw [bytesOf_append, hbytes]
      simp only [List.cons_append, List.nil_append]
      rw [readString_unit hvalue hhigh hlow, Char.ofNat_toNat, ih, hcons]
  | @pair c first second content text hc hfirst hsecond _ ih =>
      obtain ⟨_, _, _, _, hbytes, hvalue⟩ := hfirst.bytes
      obtain ⟨_, _, _, _, hbytes', hvalue'⟩ := hsecond.bytes
      obtain ⟨hhigh, hlow, hpair⟩ := pair_halves hc
      rw [bytesOf_append, bytesOf_append, hbytes, hbytes']
      simp only [List.cons_append, List.nil_append]
      rw [readString_pair hvalue hhigh hvalue' hlow, hpair, ih, hcons]
  | @firstHalf unit escape content text hunit hhalf halone hinside ih =>
      obtain ⟨_, _, _, _, hbytes, hvalue⟩ := hunit.bytes
      rw [bytesOf_append, hbytes]
      simp only [List.cons_append, List.nil_append]
      rw [readString_firstHalf hvalue (isHighSurrogate_iff.mpr hhalf)
        (fun _ _ _ _ _ _ _ heq => lowSurrogate?_of_alone hinside halone heq), ih]
      simp
  | @secondHalf unit escape content text hunit hhalf _ ih =>
      obtain ⟨_, _, _, _, hbytes, hvalue⟩ := hunit.bytes
      rw [bytesOf_append, hbytes]
      simp only [List.cons_append, List.nil_append]
      rw [readString_secondHalf hvalue (isLowSurrogate_iff.mpr hhalf), ih]
      simp

/-- A text is read from every way to write it as a string. -/
theorem Inside.reads_text {content : Option (List Char)} {text : List Char}
    (h : Inside content text) (rest : Bytes) :
    readString true [] (bytesOf text ++ 34 :: rest) =
      some (content.map String.ofList, rest) := by
  have hdecode (chars : List Char) : Utf8.decode? (bytesOf chars) = some (String.ofList chars) := by
    have hd : Utf8.decode (bytesOf chars) = .ok (String.ofList chars) := by
      rw [Utf8.decode_eq_ok, Utf8.encode, String.toList_ofList, bytesOf]
    rw [Utf8.decode?, hd]
    rfl
  rw [h.reads, if_pos rfl]
  cases content <;> simp [hdecode]

/-! ### Numbers -/

/-- What may follow a number. -/
def EndsNumber (bytes : Bytes) : Prop :=
  ∀ byte ∈ bytes.head?, isDigit byte = false ∧ byte ≠ 46 ∧ byte ≠ 101 ∧ byte ≠ 69

theorem endsNumber_cons {byte : UInt8} {rest : Bytes} : EndsNumber (byte :: rest) ↔
    isDigit byte = false ∧ byte ≠ 46 ∧ byte ≠ 101 ∧ byte ≠ 69 := by
  simp [EndsNumber]

theorem isDigit_iff {byte : UInt8} : isDigit byte ↔ 48 ≤ byte ∧ byte ≤ 57 := by
  simp [isDigit]

theorem encodeChar_of_isDigit {c : Char} (h : c.isDigit) :
    utf8EncodeChar c = [UInt8.ofNat c.toNat] ∧ isDigit (UInt8.ofNat c.toNat) ∧
      (UInt8.ofNat c.toNat).toNat = c.toNat := by
  have hc : 48 ≤ c.toNat ∧ c.toNat ≤ 57 := by
    simpa [Char.isDigit, UInt32.le_iff_toNat_le] using h
  have hn : (UInt8.ofNat c.toNat).toNat = c.toNat := Utf8.toNat_byte (by omega)
  refine ⟨?_, ?_, hn⟩
  · unfold utf8EncodeChar
    exact if_pos (Nat.le_trans hc.2 (by decide))
  · rw [isDigit_iff, UInt8.le_iff_toNat_le, UInt8.le_iff_toNat_le, hn]
    exact hc

/-- Digits are read as such, and there are some. -/
theorem IsDigits.bytes {chars : List Char} (h : IsDigits chars) :
    ∃ byte more, bytesOf chars = byte :: more ∧ isDigit byte ∧
      ∀ b ∈ bytesOf chars, isDigit b := by
  have hall : ∀ b ∈ bytesOf chars, isDigit b := by
    intro b hb
    obtain ⟨c, hc, hb⟩ := List.mem_flatMap.mp hb
    obtain ⟨he, hd, -⟩ := encodeChar_of_isDigit (h.2 c hc)
    rw [he, List.mem_singleton] at hb
    exact hb ▸ hd
  obtain ⟨c, rest, rfl⟩ := List.exists_cons_of_ne_nil h.1
  obtain ⟨he, hd, -⟩ := encodeChar_of_isDigit (h.2 c List.mem_cons_self)
  exact ⟨_, _, by rw [bytesOf_cons, he]; rfl, hd, hall⟩

theorem isDigits_toDigits (n : Nat) : IsDigits (Nat.toDigits 10 n) :=
  ⟨Nat.toDigits_ne_nil, fun _ hc => Nat.isDigit_of_mem_toDigits (by decide) (by decide) hc⟩

theorem digitsValue_toDigits (n : Nat) : digitsValue (bytesOf (Nat.toDigits 10 n)) = n := by
  have key (chars : List Char) (hd : ∀ c ∈ chars, c.isDigit) (init : Nat) :
      (bytesOf chars).foldl (fun n byte => n * 10 + (byte.toNat - 48)) init =
        Nat.ofDigitChars 10 chars init := by
    induction chars generalizing init with
    | nil => rfl
    | cons c rest ih =>
        obtain ⟨he, -, hn⟩ := encodeChar_of_isDigit (hd c List.mem_cons_self)
        rw [bytesOf_cons, he, List.singleton_append, List.foldl_cons, hn,
          ih fun c hc => hd c (List.mem_cons_of_mem _ hc), Nat.ofDigitChars_cons, Nat.mul_comm]
        rfl
  rw [digitsValue, key _ (isDigits_toDigits n).2, Nat.ofDigitChars_ten_toDigits]

/-- No number but zero begins with a zero. -/
theorem head_toDigits {n : Nat} (h : 0 < n) : (Nat.toDigits 10 n).head? ≠ some '0' := by
  have hd : ∀ n < 10, 0 < n → Nat.digitChar n ≠ '0' := by decide
  induction n using Nat.strongRecOn with
  | ind n ih =>
      by_cases hn : n < 10
      · rw [Nat.toDigits_of_lt_base hn, List.head?_cons, ne_eq, Option.some.injEq]
        exact hd n hn h
      · rw [Nat.toDigits_of_base_le (by decide) (by omega),
          List.head?_append_of_ne_nil _ Nat.toDigits_ne_nil]
        exact ih (n / 10) (by omega) (by omega)

theorem bytesOf_toDigits_zero (n : Nat) : (bytesOf (Nat.toDigits 10 n)).head? = some 48 →
    (bytesOf (Nat.toDigits 10 n)).length = 1 := by
  intro h
  rcases Nat.eq_zero_or_pos n with rfl | hn
  · rfl
  · have hh := head_toDigits hn
    cases hd : Nat.toDigits 10 n with
    | nil => exact absurd hd Nat.toDigits_ne_nil
    | cons c rest =>
        obtain ⟨he, -, hv⟩ := encodeChar_of_isDigit ((isDigits_toDigits n).2 c (by simp [hd]))
        rw [hd, bytesOf_cons, he, List.singleton_append, List.head?_cons,
          Option.some.injEq] at h
        rw [h] at hv
        rw [hd, List.head?_cons] at hh
        have hz : c.val.toNat = '0'.val.toNat := hv.symm
        exact absurd (congrArg some (Char.ext (UInt32.toNat_inj.mp hz))) hh

/-- Digits are taken as far as they go. -/
theorem span_digits {digits rest : Bytes} (hd : ∀ byte ∈ digits, isDigit byte)
    (hr : ∀ byte ∈ rest.head?, isDigit byte = false) :
    (digits ++ rest).takeWhile isDigit = digits ∧ (digits ++ rest).dropWhile isDigit = rest := by
  have hstop : rest.takeWhile isDigit = [] ∧ rest.dropWhile isDigit = rest := by
    cases rest with
    | nil => exact ⟨rfl, rfl⟩
    | cons byte more => simp [hr byte rfl]
  rw [List.takeWhile_append_of_pos hd, List.dropWhile_append_of_pos hd, hstop.1, hstop.2,
    List.append_nil]
  exact ⟨rfl, rfl⟩

theorem Fraction.skips {fraction : List Char} (h : Fraction fraction) {rest : Bytes}
    (hr : ∀ byte ∈ rest.head?, isDigit byte = false ∧ byte ≠ 46) :
    skipFraction? (bytesOf fraction ++ rest) = some (!fraction.isEmpty, rest) := by
  cases h with
  | absent =>
      rw [bytesOf_nil, List.nil_append, skipFraction?.eq_def]
      split
      · exact absurd rfl (hr 46 rfl).2
      · rfl
  | @present chars h =>
      obtain ⟨byte, more, hbytes, -, hall⟩ := h.bytes
      obtain ⟨htake, hdrop⟩ := span_digits hall fun byte hb => (hr byte hb).1
      show (if ((bytesOf chars ++ rest).takeWhile isDigit).isEmpty then none
        else some (true, (bytesOf chars ++ rest).dropWhile isDigit)) = _
      rw [htake, hdrop, hbytes]
      rfl

/-- Before its digits an exponent may have a sign. -/
theorem skipExponent?_digits {letter byte : UInt8} {sign more : Bytes}
    (hletter : letter = 101 ∨ letter = 69) (hsign : sign = [] ∨ sign = [43] ∨ sign = [45])
    (hdigit : isDigit byte) :
    skipExponent? (letter :: (sign ++ byte :: more)) =
      some (true, (byte :: more).dropWhile isDigit) := by
  have htake : ((byte :: more).takeWhile isDigit).isEmpty = false := by simp [hdigit]
  have hbyte := isDigit_iff.mp hdigit
  rw [skipExponent?.eq_def]
  simp only [if_pos hletter]
  rcases hsign with rfl | rfl | rfl
  · rw [List.nil_append]
    split
    case h_3 =>
      rw [htake]
      rfl
    all_goals grind
  · simp only [List.cons_append, List.nil_append, htake]
    rfl
  · simp only [List.cons_append, List.nil_append, htake]
    rfl

theorem Exponent.skips {exponent : List Char} (h : Exponent exponent) {rest : Bytes}
    (hr : EndsNumber rest) :
    skipExponent? (bytesOf exponent ++ rest) = some (!exponent.isEmpty, rest) := by
  cases h with
  | absent =>
      rw [bytesOf_nil, List.nil_append, skipExponent?.eq_def]
      split
      · rfl
      · next byte more =>
        have hbyte := hr byte rfl
        rw [if_neg (by simp [hbyte.2.2])]
        rfl
  | @present letter sign chars hletter hsign h =>
      obtain ⟨byte, more, hbytes, hdigit, hall⟩ := h.bytes
      obtain ⟨-, hdrop⟩ := span_digits hall fun byte hb => (hr byte hb).1
      have hletter : ∃ e : UInt8, utf8EncodeChar letter = [e] ∧ (e = 101 ∨ e = 69) := by
        rcases hletter with rfl | rfl
        · exact ⟨101, rfl, .inl rfl⟩
        · exact ⟨69, rfl, .inr rfl⟩
      have hsign : bytesOf sign = [] ∨ bytesOf sign = [43] ∨ bytesOf sign = [45] := by
        rcases hsign with rfl | rfl | rfl
        · exact .inl rfl
        · exact .inr (.inl rfl)
        · exact .inr (.inr rfl)
      obtain ⟨e, he, hcase⟩ := hletter
      rw [hbytes, List.cons_append] at hdrop
      rw [bytesOf_cons, he, bytesOf_append, hbytes, List.singleton_append, List.cons_append,
        List.append_assoc, List.cons_append, skipExponent?_digits hcase hsign hdigit, hdrop]
      rfl

/-- A number is read from its digits, up to what follows it. -/
theorem readUnsigned_decimal (negative : Bool) (n : Nat) {fraction exponent : List Char}
    (hf : Fraction fraction) (he : Exponent exponent) {rest : Bytes} (hr : EndsNumber rest) :
    readUnsigned negative (bytesOf (Nat.toDigits 10 n ++ fraction ++ exponent) ++ rest) =
      some (.number (if fraction ++ exponent = [] then
        if negative then if n = 0 then none else some (-(n : Int)) else some n else none),
        rest) := by
  have hexponent : ∀ byte ∈ (bytesOf exponent ++ rest).head?,
      isDigit byte = false ∧ byte ≠ 46 := by
    cases he with
    | absent => exact fun byte hb => ⟨(hr byte hb).1, (hr byte hb).2.1⟩
    | present hletter _ _ =>
        rcases hletter with rfl | rfl <;> rintro byte ⟨⟩ <;> decide
  have hfraction : ∀ byte ∈ (bytesOf fraction ++ (bytesOf exponent ++ rest)).head?,
      isDigit byte = false := by
    cases hf with
    | absent => exact fun byte hb => (hexponent byte hb).1
    | present => rintro byte ⟨⟩; decide
  obtain ⟨byte, more, hbytes, -, hall⟩ := (isDigits_toDigits n).bytes
  obtain ⟨htake, hdrop⟩ := span_digits hall hfraction
  have hempty : (bytesOf (Nat.toDigits 10 n)).isEmpty = false := by rw [hbytes]; rfl
  rw [bytesOf_append, bytesOf_append, List.append_assoc, List.append_assoc]
  simp only [readUnsigned, htake, hdrop]
  rw [if_neg]
  · rw [hf.skips hexponent]
    simp only [bind, Option.bind, he.skips hr, integer?, digitsValue_toDigits]
    cases fraction <;> cases exponent <;> simp
  · rintro (h | ⟨h, h'⟩)
    · simp [hempty] at h
    · exact h' (bytesOf_toDigits_zero n h)

end ShardGossip.Json
