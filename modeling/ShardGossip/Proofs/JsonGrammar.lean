import ShardGossip.Json.Printer

/-!
# ShardGossip.Proofs.JsonGrammar

**How JSON values are written.** `Spells v text` says that a text is one of the ways to write a
value: there may be white space around every token, and characters inside a string may stand for
themselves or be escaped. The compact text of a value is one of its spellings (`Whole.spells`).

Some literals spell values without content. A number with a fraction or an exponent is no integer,
and neither is `-0`; a string in which half of a surrogate pair stands alone is no text.
-/

namespace ShardGossip.Json

/-- White space between two tokens, if there is any. -/
def Spacing (chars : List Char) : Prop :=
  ∀ c ∈ chars, c = ' ' ∨ c = '\t' ∨ c = '\n' ∨ c = '\r'

theorem spacing_nil : Spacing [] := nofun

/-! ### Strings -/

/-- The letters that stand for a character after a backslash, with that character. -/
def shortForms : List (Char × Char) :=
  [('"', '"'), ('\\', '\\'), ('/', '/'), ('b', '\x08'), ('f', '\x0c'), ('n', '\n'), ('r', '\r'),
    ('t', '\t')]

/-- A hexadecimal digit of either case for a number below sixteen. -/
def IsHexDigit (n : Nat) (c : Char) : Prop :=
  n < 16 ∧ (c = n.digitChar ∨ c = n.digitChar.toUpper)

/-- The code unit that is escaped with four hexadecimal digits. -/
inductive HexUnit : Nat → List Char → Prop where
  | digits {i j k l : Nat} {a b c d : Char} (ha : IsHexDigit i a) (hb : IsHexDigit j b)
      (hc : IsHexDigit k c) (hd : IsHexDigit l d) :
      HexUnit (((i * 16 + j) * 16 + k) * 16 + l) ['\\', 'u', a, b, c, d]

/-- The second half of a surrogate pair comes next. -/
def SecondHalfNext (text : List Char) : Prop :=
  ∃ unit escape rest, HexUnit unit escape ∧ 0xDC00 ≤ unit ∧ unit < 0xE000 ∧ text = escape ++ rest

/-- What stands between the quotes of a string, with its characters. There are none if half of a
surrogate pair stands alone. -/
inductive Inside : Option (List Char) → List Char → Prop where
  | empty : Inside (some []) []
  | plain {c : Char} {content : Option (List Char)} {text : List Char} (hquote : c ≠ '"')
      (hslash : c ≠ '\\') (hcontrol : ¬c.toNat < 0x20) (h : Inside content text) :
      Inside (content.map (c :: ·)) (c :: text)
  | short {letter c : Char} {content : Option (List Char)} {text : List Char}
      (hform : (letter, c) ∈ shortForms) (h : Inside content text) :
      Inside (content.map (c :: ·)) ('\\' :: letter :: text)
  | unit {c : Char} {escape : List Char} {content : Option (List Char)} {text : List Char}
      (hunit : HexUnit c.toNat escape) (h : Inside content text) :
      Inside (content.map (c :: ·)) (escape ++ text)
  | pair {c : Char} {first second : List Char} {content : Option (List Char)} {text : List Char}
      (hc : 0x10000 ≤ c.toNat) (hfirst : HexUnit (0xD800 + (c.toNat - 0x10000) / 0x400) first)
      (hsecond : HexUnit (0xDC00 + (c.toNat - 0x10000) % 0x400) second)
      (h : Inside content text) :
      Inside (content.map (c :: ·)) (first ++ second ++ text)
  | firstHalf {unit : Nat} {escape : List Char} {content : Option (List Char)} {text : List Char}
      (hunit : HexUnit unit escape) (hhalf : 0xD800 ≤ unit ∧ unit < 0xDC00)
      (halone : ¬SecondHalfNext text) (h : Inside content text) : Inside none (escape ++ text)
  | secondHalf {unit : Nat} {escape : List Char} {content : Option (List Char)} {text : List Char}
      (hunit : HexUnit unit escape) (hhalf : 0xDC00 ≤ unit ∧ unit < 0xE000)
      (h : Inside content text) : Inside none (escape ++ text)

/-! ### Numbers -/

/-- One or more decimal digits. -/
def IsDigits (chars : List Char) : Prop :=
  chars ≠ [] ∧ ∀ c ∈ chars, c.isDigit

/-- A fraction, if there is one. -/
inductive Fraction : List Char → Prop where
  | absent : Fraction []
  | present {chars : List Char} (h : IsDigits chars) : Fraction ('.' :: chars)

/-- An exponent, if there is one. -/
inductive Exponent : List Char → Prop where
  | absent : Exponent []
  | present {letter : Char} {sign chars : List Char} (hletter : letter = 'e' ∨ letter = 'E')
      (hsign : sign = [] ∨ sign = ['+'] ∨ sign = ['-']) (h : IsDigits chars) :
      Exponent (letter :: (sign ++ chars))

/-! ### Values -/

/-- A member of an object, with a text of its key and one of its value. -/
structure Member where
  key : Option String
  keyText : List Char
  value : Value
  valueText : List Char

/-- The member without its texts. -/
def Member.entry (m : Member) : Option String × Value := (m.key, m.value)

/-- The text of a member. -/
def Member.text (m : Member) : List Char := m.keyText ++ ':' :: m.valueText

/-- Texts with a comma between each two. -/
def commas : List (List Char) → List Char
  | [] => []
  | [text] => text
  | text :: rest => text ++ ',' :: commas rest

/-- A text of a value. -/
inductive Spells : Value → List Char → Prop where
  | null : Spells .null "null".toList
  | bool (b : Bool) : Spells (.bool b) (if b then "true" else "false").toList
  | integer (i : Int) : Spells (.ofInt i) (renderInt i)
  | negativeZero : Spells (.number none) ['-', '0']
  | decimal (n : Nat) {sign fraction exponent : List Char} (hsign : sign = [] ∨ sign = ['-'])
      (hfraction : Fraction fraction) (hexponent : Exponent exponent)
      (hne : fraction ++ exponent ≠ []) :
      Spells (.number none) (sign ++ Nat.toDigits 10 n ++ fraction ++ exponent)
  | text {content : Option (List Char)} {inside : List Char} (h : Inside content inside) :
      Spells (.text (content.map String.ofList)) ('"' :: inside ++ ['"'])
  | emptyArray {space : List Char} (h : Spacing space) :
      Spells (.array []) ('[' :: space ++ [']'])
  | array {items : List (Value × List Char)} (hne : items ≠ []) (h : ∀ i ∈ items, Spells i.1 i.2) :
      Spells (.array (items.map Prod.fst)) ('[' :: commas (items.map Prod.snd) ++ [']'])
  | emptyObject {space : List Char} (h : Spacing space) :
      Spells (.object []) ('{' :: space ++ ['}'])
  | object {members : List Member} (hne : members ≠ [])
      (hkeys : ∀ m ∈ members, Spells (.text m.key) m.keyText)
      (h : ∀ m ∈ members, Spells m.value m.valueText) :
      Spells (.object (members.map Member.entry)) ('{' :: commas (members.map Member.text) ++ ['}'])
  | spaced {v : Value} {front text back : List Char} (hfront : Spacing front)
      (hback : Spacing back) (h : Spells v text) : Spells v (front ++ text ++ back)

/-! ### Compact texts -/

/-- Nothing in the value is without content. -/
inductive Value.Whole : Value → Prop where
  | null : Whole .null
  | bool (b : Bool) : Whole (.bool b)
  | number (i : Int) : Whole (.ofInt i)
  | text (s : String) : Whole (.ofText s)
  | array {items : List Value} : (∀ v ∈ items, Whole v) → Whole (.array items)
  | record {members : List (String × Value)} :
      (∀ m ∈ members, Whole m.2) → Whole (.record members)

/-- The members of a record, as an object has them. -/
def keyed (members : List (String × Value)) : List (Option String × Value) :=
  members.map fun (key, value) => (some key, value)

theorem keyed_cons (member : String × Value) (members : List (String × Value)) :
    keyed (member :: members) = (some member.1, member.2) :: keyed members := rfl

theorem record_eq (members : List (String × Value)) :
    Value.record members = .object (keyed members) := rfl

theorem isHexDigit_digitChar {n : Nat} (h : n < 16) : IsHexDigit n n.digitChar :=
  ⟨h, .inl rfl⟩

/-- A character may stand in a string as it is printed. -/
theorem Inside.escape {content : Option (List Char)} {text : List Char} (h : Inside content text)
    (c : Char) : Inside (content.map (c :: ·)) (escape c ++ text) := by
  fun_cases Json.escape c
  case case8 hcontrol =>
    have hhigh := isHexDigit_digitChar (n := c.toNat / 16) (by omega)
    have hlow := isHexDigit_digitChar (n := c.toNat % 16) (by omega)
    have hzero := isHexDigit_digitChar (n := 0) (by decide)
    have hunit := HexUnit.digits hzero hzero hhigh hlow
    rw [show ((0 * 16 + 0) * 16 + c.toNat / 16) * 16 + c.toNat % 16 = c.toNat by omega] at hunit
    exact .unit hunit h
  case case9 hquote hslash _ _ _ _ _ hcontrol => exact .plain hquote hslash hcontrol h
  all_goals
    subst_vars
    exact .short (by decide) h

theorem inside_escaped (chars : List Char) : Inside (some chars) (chars.flatMap escape) := by
  induction chars with
  | nil => exact .empty
  | cons c rest ih => exact ih.escape c

theorem spells_renderText (s : String) : Spells (.ofText s) (renderText s) := by
  have h := Spells.text (inside_escaped s.toList)
  rwa [Option.map_some, String.ofList_toList] at h

theorem renderItems_eq (first : Value) (rest : List Value) :
    render first ++ renderItems rest = commas ((first :: rest).map render) ++ [']'] := by
  induction rest generalizing first with
  | nil => simp [renderItems, commas]
  | cons second rest ih => simp [renderItems, commas, ih]

/-- A member as it is printed. -/
def printed (m : String × Value) : Member := ⟨some m.1, renderText m.1, m.2, render m.2⟩

theorem renderMembers_eq (first : String × Value) (rest : List (String × Value)) :
    renderText first.1 ++ ':' :: render first.2 ++ renderMembers (keyed rest) =
      commas ((first :: rest).map fun m => (printed m).text) ++ ['}'] := by
  induction rest generalizing first with
  | nil => simp [keyed, renderMembers, commas, printed, Member.text]
  | cons second rest ih =>
      have hrest := ih second
      simp only [keyed_cons, renderMembers, Option.getD_some, List.append_assoc,
        List.cons_append] at hrest ⊢
      simp [hrest, commas, printed, Member.text]

/-- **The compact text of a value is one of its spellings.** -/
theorem Value.Whole.spells {v : Value} (h : v.Whole) : Spells v (render v) := by
  induction h with
  | null => exact .null
  | bool b => cases b <;> exact .bool _
  | number i => exact .integer i
  | text s => exact spells_renderText s
  | @array items _ ih =>
      cases items with
      | nil => exact .emptyArray spacing_nil
      | cons first rest =>
          have hne : (first :: rest).map (fun v => (v, render v)) ≠ [] := by simp
          have h := Spells.array hne (List.forall_mem_map.mpr ih)
          simp only [List.map_map, Function.comp_def, List.map_id'] at h
          rwa [List.cons_append, ← renderItems_eq] at h
  | @record members _ ih =>
      cases members with
      | nil => exact .emptyObject spacing_nil
      | cons first rest =>
          have hne : (first :: rest).map printed ≠ [] := by simp
          have h := Spells.object hne (List.forall_mem_map.mpr fun m _ => spells_renderText m.1)
            (List.forall_mem_map.mpr ih)
          simp only [List.map_map, Function.comp_def] at h
          rwa [List.cons_append, ← renderMembers_eq] at h

end ShardGossip.Json
