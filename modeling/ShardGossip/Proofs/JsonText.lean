import Mathlib.Data.List.DropRight
import ShardGossip.Proofs.JsonTokens

/-!
# ShardGossip.Proofs.JsonText

**A value is read from every one of its spellings** (`Spells.parse?`), and so from its compact text
(`parse?_compact`), by induction over the rules of the grammar. White space in front of a token is
skipped, and white space behind it is left to the next one; so what is left after a value is only
known up to white space (`Reads`). Of every two nested calls of the reader at least one takes a
byte, so its bound is never met.
-/

namespace ShardGossip.Json

open String

/-! ### White space -/

theorem skipSpace_cons {byte : UInt8} (h : isSpace byte = false) (rest : Bytes) :
    skipSpace (byte :: rest) = byte :: rest := by
  simp [skipSpace, h]

theorem skipSpace_skipSpace (bytes : Bytes) : skipSpace (skipSpace bytes) = skipSpace bytes :=
  List.dropWhile_idempotent _ _

theorem Spacing.bytes {space : List Char} (h : Spacing space) :
    ∀ byte ∈ bytesOf space, isSpace byte := by
  intro byte hb
  obtain ⟨c, hc, hb⟩ := List.mem_flatMap.mp hb
  rcases h c hc with rfl | rfl | rfl | rfl <;> exact List.mem_singleton.mp hb ▸ rfl

theorem Spacing.skipped {space : List Char} (h : Spacing space) (rest : Bytes) :
    skipSpace (bytesOf space ++ rest) = skipSpace rest :=
  List.dropWhile_append_of_pos h.bytes

theorem Spacing.endsNumber {space : List Char} (h : Spacing space) {rest : Bytes}
    (hr : EndsNumber rest) : EndsNumber (bytesOf space ++ rest) := by
  cases hs : bytesOf space with
  | nil => exact hr
  | cons byte more =>
      have hspace := h.bytes byte (by simp [hs])
      simp only [isSpace, isDigit, List.cons_append, endsNumber_cons] at hspace ⊢
      grind

section Spaces

variable {bytes others : Bytes} (h : skipSpace bytes = skipSpace others)

include h

/-- White space in front makes no difference. -/
theorem readValue_congr (fuel : Nat) : readValue fuel bytes = readValue fuel others := by
  cases fuel with
  | zero => rw [readValue, readValue]
  | succ fuel => rw [readValue, readValue, h]

theorem readItems_congr (fuel : Nat) (before : List Value) :
    readItems fuel before bytes = readItems fuel before others := by
  cases fuel with
  | zero => rw [readItems, readItems]
  | succ fuel => rw [readItems, readItems, readValue_congr h]

theorem readMembers_congr (fuel : Nat) (before : List (Option String × Value)) :
    readMembers fuel before bytes = readMembers fuel before others := by
  cases fuel with
  | zero => rw [readMembers, readMembers]
  | succ fuel => rw [readMembers, readMembers, h]

end Spaces

/-! ### Values -/

/-- The value is read from the text, whatever follows that does not go on with a number. White space
behind the text may be left or not. -/
def Reads (v : Value) (text : List Char) : Prop :=
  ∀ (fuel : Nat) (rest : Bytes), 2 * text.length ≤ fuel + 1 → EndsNumber rest →
    ∃ left, readValue (fuel + 1) (bytesOf text ++ rest) = some (v, left) ∧
      skipSpace left = skipSpace rest

/-- A token starts here that is not a closing bracket. -/
def Opens (text : List Char) : Prop :=
  ∀ rest, ∃ byte more, skipSpace (bytesOf text ++ rest) = byte :: more ∧ byte ≠ 93

theorem isSpace_of_isDigit {byte : UInt8} (h : isDigit byte) : isSpace byte = false := by
  rw [isDigit_iff] at h
  simp [isSpace]
  grind

theorem readScalar_digit {byte : UInt8} (h : isDigit byte) (more : Bytes) :
    readScalar (byte :: more) = readUnsigned false (byte :: more) := by
  unfold readScalar
  split <;> simp_all [isDigit]

theorem readValue_scalar {byte : UInt8} (hs : isSpace byte = false)
    (hb : byte ≠ 34 ∧ byte ≠ 91 ∧ byte ≠ 123) (fuel : Nat) (more : Bytes) :
    readValue (fuel + 1) (byte :: more) = readScalar (byte :: more) := by
  rw [readValue, skipSpace_cons hs]
  split <;> simp_all

theorem readValue_digit {byte : UInt8} (h : isDigit byte) (fuel : Nat) (more : Bytes) :
    readValue (fuel + 1) (byte :: more) = readUnsigned false (byte :: more) := by
  have hb := isDigit_iff.mp h
  rw [readValue_scalar (isSpace_of_isDigit h) (by grind), readScalar_digit h]

theorem reads_number (n : Nat) {sign fraction exponent : List Char}
    (hsign : sign = [] ∨ sign = ['-']) (hf : Fraction fraction) (he : Exponent exponent) :
    Reads (.number (if fraction ++ exponent = [] then
        if sign = [] then some n else if n = 0 then none else some (-(n : Int)) else none))
      (sign ++ Nat.toDigits 10 n ++ fraction ++ exponent) := by
  intro fuel rest _ hr
  rcases hsign with rfl | rfl
  · obtain ⟨byte, more, hb, hd, -⟩ := (isDigits_toDigits n).bytes
    have hread := readUnsigned_decimal false n hf he hr
    refine ⟨rest, ?_, rfl⟩
    rw [List.nil_append]
    rw [bytesOf_append, bytesOf_append, hb, List.append_assoc, List.append_assoc,
      List.cons_append] at hread ⊢
    rw [readValue_digit hd, hread]
    simp
  · have hread := readUnsigned_decimal true n hf he hr
    refine ⟨rest, ?_, rfl⟩
    show readValue (fuel + 1) (45 :: (bytesOf (Nat.toDigits 10 n ++ fraction ++ exponent) ++ rest))
      = _
    rw [readValue_scalar rfl (by decide)]
    exact hread

/-- A string is read from its opening quote on. -/
theorem Spells.key {content : Option String} {text : List Char} (h : Spells (.text content) text)
    (rest : Bytes) : ∃ more left, skipSpace (bytesOf text ++ rest) = 34 :: more ∧
      readString true [] more = some (content, left) ∧ skipSpace left = skipSpace rest := by
  -- A text is spelled by a string, or by one with white space around it.
  generalize hv : Value.text content = v at h
  induction h generalizing rest with
  | @text content inside h =>
      cases hv
      refine ⟨_, _, ?_, h.reads_text rest, rfl⟩
      rw [List.cons_append, bytesOf_cons, bytesOf_append, List.append_assoc, List.append_assoc]
      exact skipSpace_cons rfl _
  | @spaced _ front text back hfront hback _ ih =>
      obtain ⟨more, left, hopen, hread, hleft⟩ := ih (bytesOf back ++ rest) hv
      refine ⟨more, left, ?_, hread, hleft.trans (hback.skipped rest)⟩
      rw [bytesOf_append, bytesOf_append, List.append_assoc, List.append_assoc, hfront.skipped]
      exact hopen
  | _ => cases hv

/-! ### Arrays and objects -/

section Commas

variable {α β : Type} {read : (fuel : Nat) → (before : List β) → Bytes → Option (Value × Bytes)}
  {text : α → List Char} {part : α → β} {close : UInt8} {collect : List β → Value}

/-- Parts are read one after the other. The reader calls itself twice for a part, and each part
comes with a comma or the closing bracket. -/
theorem read_commas {first : α} {more : List α}
    (hnext : ∀ a ∈ first :: more, ∀ fuel before rest, 2 * (text a).length ≤ fuel + 1 →
      read (fuel + 2) before (bytesOf (text a) ++ 44 :: rest) =
        read (fuel + 1) (part a :: before) rest)
    (hlast : ∀ a ∈ first :: more, ∀ fuel before rest, 2 * (text a).length ≤ fuel + 1 →
      read (fuel + 2) before (bytesOf (text a) ++ close :: rest) =
        some (collect (part a :: before).reverse, rest))
    (before : List β) (fuel : Nat) (rest : Bytes)
    (hfuel : 2 * (commas ((first :: more).map text)).length + 2 ≤ fuel) :
    read fuel before (bytesOf (commas ((first :: more).map text)) ++ close :: rest) =
      some (collect (before.reverse ++ (first :: more).map part), rest) := by
  induction more generalizing first before fuel with
  | nil =>
      replace hfuel : 2 * (text first).length + 2 ≤ fuel := hfuel
      obtain ⟨fuel, rfl⟩ : ∃ f, fuel = f + 2 := ⟨fuel - 2, by omega⟩
      have hread := hlast first List.mem_cons_self fuel before rest (by omega)
      exact hread.trans (by simp)
  | cons second more ih =>
      have hrest := ih (fun a ha => hnext a (List.mem_cons_of_mem _ ha))
        (fun a ha => hlast a (List.mem_cons_of_mem _ ha)) (part first :: before)
      -- Of the other parts only the length of their text counts from here on.
      generalize htext : commas ((second :: more).map text) = others at hrest
      have hcommas : commas ((first :: second :: more).map text) = text first ++ ',' :: others := by
        rw [← htext]
        rfl
      rw [hcommas, List.length_append, List.length_cons] at hfuel
      obtain ⟨fuel, rfl⟩ : ∃ f, fuel = f + 2 := ⟨fuel - 2, by omega⟩
      have hread := hnext first List.mem_cons_self fuel before (bytesOf others ++ close :: rest)
        (by omega)
      rw [hcommas, bytesOf_append, List.append_assoc]
      refine hread.trans ((hrest (fuel + 1) (by omega)).trans ?_)
      simp

end Commas

/-- After an item there is the end of the array or another item. -/
theorem readItems_item {item : Value} {text : List Char} (h : Reads item text) {fuel : Nat}
    (hfuel : 2 * text.length ≤ fuel + 1) {next : UInt8} {rest : Bytes}
    (hr : EndsNumber (next :: rest)) (hnext : isSpace next = false) (before : List Value) :
    readItems (fuel + 2) before (bytesOf text ++ next :: rest) =
      match next :: rest with
      | 44 :: rest => readItems (fuel + 1) (item :: before) rest
      | 93 :: rest => some (.array (item :: before).reverse, rest)
      | _ => none := by
  obtain ⟨left, hread, hleft⟩ := h fuel _ hfuel hr
  rw [skipSpace_cons hnext] at hleft
  rw [readItems, hread]
  simp only [hleft]
  rfl

theorem bytesOf_member (m : Member) (rest : Bytes) :
    bytesOf m.text ++ rest = bytesOf m.keyText ++ 58 :: (bytesOf m.valueText ++ rest) := by
  rw [Member.text, bytesOf_append, List.append_assoc]
  rfl

/-- After a member there is the end of the object or another member. -/
theorem readMembers_member {m : Member} (hkey : Spells (.text m.key) m.keyText)
    (h : Reads m.value m.valueText) {fuel : Nat} (hfuel : 2 * m.text.length ≤ fuel + 1)
    {next : UInt8} {rest : Bytes} (hr : EndsNumber (next :: rest)) (hnext : isSpace next = false)
    (before : List (Option String × Value)) :
    readMembers (fuel + 2) before (bytesOf m.text ++ next :: rest) =
      match next :: rest with
      | 44 :: rest => readMembers (fuel + 1) (m.entry :: before) rest
      | 125 :: rest => some (.object (m.entry :: before).reverse, rest)
      | _ => none := by
  have hlength : m.text.length = m.keyText.length + (m.valueText.length + 1) := by
    simp [Member.text]
  obtain ⟨left, hread, hleft⟩ := h fuel _ (by omega) hr
  obtain ⟨more, behind, hopen, hstring, hcolon⟩ :=
    hkey.key (58 :: (bytesOf m.valueText ++ next :: rest))
  rw [skipSpace_cons hnext] at hleft
  rw [skipSpace_cons rfl] at hcolon
  rw [bytesOf_member, readMembers, hopen]
  simp only [hstring, hcolon, hread, hleft]
  rfl

theorem readItems_commas {items : List (Value × List Char)} (hne : items ≠ [])
    (h : ∀ i ∈ items, Reads i.1 i.2) (fuel : Nat)
    (hfuel : 2 * (commas (items.map Prod.snd)).length + 2 ≤ fuel) (rest : Bytes) :
    readItems fuel [] (bytesOf (commas (items.map Prod.snd)) ++ 93 :: rest) =
      some (.array (items.map Prod.fst), rest) := by
  obtain ⟨first, more, rfl⟩ := List.exists_cons_of_ne_nil hne
  refine read_commas ?_ ?_ [] fuel rest hfuel
  · exact fun i hi _ before _ hf =>
      readItems_item (h i hi) hf (endsNumber_cons.mpr (by decide)) rfl before
  · exact fun i hi _ before _ hf =>
      readItems_item (h i hi) hf (endsNumber_cons.mpr (by decide)) rfl before

theorem readMembers_commas {members : List Member} (hne : members ≠ [])
    (hkeys : ∀ m ∈ members, Spells (.text m.key) m.keyText)
    (h : ∀ m ∈ members, Reads m.value m.valueText) (fuel : Nat)
    (hfuel : 2 * (commas (members.map Member.text)).length + 2 ≤ fuel) (rest : Bytes) :
    readMembers fuel [] (bytesOf (commas (members.map Member.text)) ++ 125 :: rest) =
      some (.object (members.map Member.entry), rest) := by
  obtain ⟨first, more, rfl⟩ := List.exists_cons_of_ne_nil hne
  refine read_commas ?_ ?_ [] fuel rest hfuel
  · exact fun m hm _ before _ hf =>
      readMembers_member (hkeys m hm) (h m hm) hf (endsNumber_cons.mpr (by decide)) rfl before
  · exact fun m hm _ before _ hf =>
      readMembers_member (hkeys m hm) (h m hm) hf (endsNumber_cons.mpr (by decide)) rfl before

/-- A number starts with its sign or its first digit. -/
theorem opens_number (n : Nat) {sign : List Char} (hsign : sign = [] ∨ sign = ['-'])
    (others : List Char) : Opens (sign ++ Nat.toDigits 10 n ++ others) := by
  intro rest
  rcases hsign with rfl | rfl
  · obtain ⟨byte, more, hbytes, hdigit, -⟩ := (isDigits_toDigits n).bytes
    have h := isDigit_iff.mp hdigit
    rw [List.nil_append, bytesOf_append, hbytes]
    exact ⟨_, _, skipSpace_cons (isSpace_of_isDigit hdigit) _, by grind⟩
  · exact ⟨45, _, skipSpace_cons rfl _, by decide⟩

theorem Spells.opens {v : Value} {text : List Char} (h : Spells v text) : Opens text := by
  induction h with
  | null => exact fun _ => ⟨110, _, skipSpace_cons rfl _, by decide⟩
  | bool b =>
      cases b
      · exact fun _ => ⟨102, _, skipSpace_cons rfl _, by decide⟩
      · exact fun _ => ⟨116, _, skipSpace_cons rfl _, by decide⟩
  | integer i =>
      cases i with
      | ofNat n =>
          show Opens (Nat.toDigits 10 n)
          simpa using opens_number n (.inl rfl) []
      | negSucc n =>
          show Opens ('-' :: Nat.toDigits 10 (n + 1))
          simpa using opens_number (n + 1) (.inr rfl) []
  | negativeZero => exact fun _ => ⟨45, _, skipSpace_cons rfl _, by decide⟩
  | decimal n hsign _ _ _ =>
      rw [List.append_assoc]
      exact opens_number n hsign _
  | text => exact fun _ => ⟨34, _, skipSpace_cons rfl _, by decide⟩
  | emptyArray | array => exact fun _ => ⟨91, _, skipSpace_cons rfl _, by decide⟩
  | emptyObject | object => exact fun _ => ⟨123, _, skipSpace_cons rfl _, by decide⟩
  | spaced hfront _ _ ih =>
      intro rest
      rw [bytesOf_append, bytesOf_append, List.append_assoc, List.append_assoc, hfront.skipped]
      exact ih _

/-- The opening bracket of an array with items. -/
theorem readValue_array {bytes more : Bytes} {byte : UInt8} (h : skipSpace bytes = byte :: more)
    (hne : byte ≠ 93) (fuel : Nat) :
    readValue (fuel + 1) (91 :: bytes) = readItems fuel [] bytes := by
  have hcongr := readItems_congr (skipSpace_skipSpace bytes) fuel []
  rw [h] at hcongr
  rw [readValue, skipSpace_cons rfl]
  simp only [h]
  split
  · simp_all
  · exact hcongr

theorem readValue_object {bytes more : Bytes} (h : skipSpace bytes = 34 :: more) (fuel : Nat) :
    readValue (fuel + 1) (123 :: bytes) = readMembers fuel [] bytes := by
  have hcongr := readMembers_congr (skipSpace_skipSpace bytes) fuel []
  rw [h] at hcongr
  rw [readValue, skipSpace_cons rfl]
  simp only [h]
  exact hcongr

/-- The first text is in front. -/
theorem exists_commas_cons (text : List Char) (more : List (List Char)) :
    ∃ others, commas (text :: more) = text ++ others := by
  cases more with
  | nil => exact ⟨[], (List.append_nil _).symm⟩
  | cons => exact ⟨_, rfl⟩

theorem reads_array {items : List (Value × List Char)} (hne : items ≠ [])
    (hopens : ∀ i ∈ items, Opens i.2) (h : ∀ i ∈ items, Reads i.1 i.2) :
    Reads (.array (items.map Prod.fst)) ('[' :: commas (items.map Prod.snd) ++ [']']) := by
  intro fuel rest hfuel _
  rw [List.cons_append, List.length_cons, List.length_append, List.length_singleton] at hfuel
  have hitems := readItems_commas hne h fuel (by omega) rest
  obtain ⟨first, more, rfl⟩ := List.exists_cons_of_ne_nil hne
  obtain ⟨others, hothers⟩ := exists_commas_cons first.2 (more.map Prod.snd)
  obtain ⟨byte, bytes, hopen, hbyte⟩ :=
    hopens first List.mem_cons_self (bytesOf others ++ 93 :: rest)
  rw [← List.append_assoc, ← bytesOf_append, ← hothers] at hopen
  refine ⟨rest, ?_, rfl⟩
  rw [List.cons_append, bytesOf_cons, bytesOf_append, List.append_assoc, List.append_assoc]
  exact (readValue_array hopen hbyte fuel).trans hitems

theorem reads_object {members : List Member} (hne : members ≠ [])
    (hkeys : ∀ m ∈ members, Spells (.text m.key) m.keyText)
    (h : ∀ m ∈ members, Reads m.value m.valueText) :
    Reads (.object (members.map Member.entry))
      ('{' :: commas (members.map Member.text) ++ ['}']) := by
  intro fuel rest hfuel _
  rw [List.cons_append, List.length_cons, List.length_append, List.length_singleton] at hfuel
  have hmembers := readMembers_commas hne hkeys h fuel (by omega) rest
  obtain ⟨first, more, rfl⟩ := List.exists_cons_of_ne_nil hne
  obtain ⟨others, hothers⟩ := exists_commas_cons first.text (more.map Member.text)
  obtain ⟨bytes, -, hopen, -⟩ := (hkeys first List.mem_cons_self).key
    (58 :: (bytesOf first.valueText ++ (bytesOf others ++ 125 :: rest)))
  rw [← bytesOf_member, ← List.append_assoc, ← bytesOf_append, ← hothers] at hopen
  refine ⟨rest, ?_, rfl⟩
  rw [List.cons_append, bytesOf_cons, bytesOf_append, List.append_assoc, List.append_assoc]
  exact (readValue_object hopen fuel).trans hmembers

theorem Reads.spaced {v : Value} {front text back : List Char} (hfront : Spacing front)
    (hback : Spacing back) (h : Reads v text) : Reads v (front ++ text ++ back) := by
  intro fuel rest hfuel hr
  rw [List.length_append, List.length_append] at hfuel
  obtain ⟨left, hread, hleft⟩ := h fuel _ (by omega) (hback.endsNumber hr)
  refine ⟨left, ?_, hleft.trans (hback.skipped rest)⟩
  rw [bytesOf_append, bytesOf_append, List.append_assoc, List.append_assoc,
    readValue_congr (hfront.skipped _), hread]

theorem Spells.reads {v : Value} {text : List Char} (h : Spells v text) : Reads v text := by
  induction h with
  | null => exact fun _ rest _ _ => ⟨rest, rfl, rfl⟩
  | bool b => cases b <;> exact fun _ rest _ _ => ⟨rest, rfl, rfl⟩
  | integer i =>
      cases i with
      | ofNat n =>
          show Reads (.number (some n)) (Nat.toDigits 10 n)
          simpa using reads_number n (.inl rfl) .absent .absent
      | negSucc n =>
          show Reads (.number (some (-(n + 1 : Int)))) ('-' :: Nat.toDigits 10 (n + 1))
          simpa using reads_number (n + 1) (.inr rfl) .absent .absent
  | negativeZero => exact reads_number 0 (.inr rfl) .absent .absent
  | decimal n hsign hfraction hexponent hne =>
      have h := reads_number n hsign hfraction hexponent
      rwa [if_neg hne] at h
  | text h =>
      intro fuel rest _ _
      obtain ⟨more, left, hopen, hread, hleft⟩ := (Spells.text h).key rest
      refine ⟨left, ?_, hleft⟩
      rw [readValue, hopen]
      simp only [hread]
      rfl
  | @emptyArray space h =>
      intro fuel rest _ _
      refine ⟨rest, ?_, rfl⟩
      show readValue (fuel + 1) (91 :: (bytesOf (space ++ [']']) ++ rest)) = _
      rw [bytesOf_append, List.append_assoc, readValue, skipSpace_cons rfl]
      simp only [h.skipped]
      rfl
  | array hne h ih => exact reads_array hne (fun i hi => (h i hi).opens) ih
  | @emptyObject space h =>
      intro fuel rest _ _
      refine ⟨rest, ?_, rfl⟩
      show readValue (fuel + 1) (123 :: (bytesOf (space ++ ['}']) ++ rest)) = _
      rw [bytesOf_append, List.append_assoc, readValue, skipSpace_cons rfl]
      simp only [h.skipped]
      rfl
  | object hne hkeys _ _ ih => exact reads_object hne hkeys ih
  | spaced hfront hback _ ih => exact ih.spaced hfront hback

/-! ### Texts -/

/-- **A value is read from every one of its spellings.** -/
theorem Spells.parse? {v : Value} {text : String} (h : Spells v text.toList) :
    parse? (Utf8.encode text) = some v := by
  have hlength := length_le_bytesOf text.toList
  obtain ⟨left, hread, hleft⟩ :=
    h.reads (2 * (bytesOf text.toList).length + 1) [] (by omega) (by simp [EndsNumber])
  rw [List.append_nil] at hread
  show Json.parse? (bytesOf text.toList) = _
  rw [Json.parse?, hread]
  simp only [hleft]
  rfl

/-- **A value is read from its compact text.** -/
theorem parse?_compact {v : Value} (h : v.Whole) : parse? (Utf8.encode v.compact) = some v := by
  refine Spells.parse? ?_
  rw [Value.compact, String.toList_ofList]
  exact h.spells

end ShardGossip.Json
