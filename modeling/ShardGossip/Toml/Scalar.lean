import ShardGossip.Settings

/-!
# ShardGossip.Toml.Scalar

The parts of a TOML document without inner structure: blanks, comments, strings, numbers and times.

Each reader takes the characters that are left and gives back what it read with what is left then.
-/

namespace ShardGossip.Toml

/-! ### Blanks, comments and line ends -/

/-- A space or a tab. -/
def isBlank (c : Char) : Bool :=
  c = ' ' || c = '\t'

/-- What follows the blanks in front. -/
def skipBlanks (cs : List Char) : List Char :=
  cs.dropWhile isBlank

/-- A character that may stand in a text: no control character but the tab. -/
def isTextChar (c : Char) : Bool :=
  c = '\t' || (' ' ≤ c && c ≠ '\x7f')

/-- What follows the line end in front. -/
def newline? : List Char → Option (List Char)
  | '\n' :: rest => some rest
  | '\r' :: '\n' :: rest => some rest
  | _ => none

/-- What follows the rest of a line that holds nothing but blanks and a comment. -/
def lineEnd? (cs : List Char) : Option (List Char) :=
  let rest :=
    match skipBlanks cs with
    | '#' :: rest => rest.dropWhile isTextChar
    | rest => rest
  match rest with
  | [] => some []
  | rest => newline? rest

/-- What follows blanks, line ends and comments. -/
def skipLayout (comment : Bool) : List Char → Option (List Char)
  | [] => some []
  | '\r' :: rest =>
    match rest with
    | '\n' :: _ => skipLayout false rest
    | _ => none
  | c :: rest =>
    if c = '\n' then skipLayout false rest
    else if comment then if isTextChar c then skipLayout true rest else none
    else if isBlank c then skipLayout false rest
    else if c = '#' then skipLayout true rest
    else some (c :: rest)

/-! ### Digits -/

/-- The value of a digit in any base up to sixteen. -/
def digitValue? (c : Char) : Option Nat :=
  if '0' ≤ c ∧ c ≤ '9' then some (c.toNat - '0'.toNat)
  else if 'a' ≤ c ∧ c ≤ 'f' then some (c.toNat - 'a'.toNat + 10)
  else if 'A' ≤ c ∧ c ≤ 'F' then some (c.toNat - 'A'.toNat + 10)
  else none

/-- A digit of a base. -/
def isDigitOf (base : Nat) (c : Char) : Bool :=
  (digitValue? c).any (· < base)

/-- The number that digits spell. -/
def digitsValue (base : Nat) (digits : List Char) : Nat :=
  digits.foldl (fun n c => n * base + (digitValue? c).getD 0) 0

/-- Reads the digits after the first one. An underscore may stand between two digits. -/
def moreDigits (base : Nat) : List Char → Option (List Char × List Char)
  | '_' :: c :: rest =>
    if isDigitOf base c then
      (moreDigits base rest).map fun (digits, rest) => (c :: digits, rest)
    else none
  | ['_'] => none
  | c :: rest =>
    if isDigitOf base c then
      (moreDigits base rest).map fun (digits, rest) => (c :: digits, rest)
    else some ([], c :: rest)
  | [] => some ([], [])

/-- Reads one digit or more. -/
def someDigits : (base : Nat) → List Char → Option (List Char × List Char)
  | base, c :: rest =>
    if isDigitOf base c then
      (moreDigits base rest).map fun (digits, rest) => (c :: digits, rest)
    else none
  | _, [] => none

/-- Reads a fixed number of digits as a number. -/
def fixedDigits (count : Nat) (cs : List Char) : Option (Nat × List Char) :=
  let digits := cs.take count
  if digits.length = count ∧ digits.all (isDigitOf 10) then
    some (digitsValue 10 digits, cs.drop count)
  else none

/-! ### Strings -/

/-- The character that a number stands for. -/
def scalar? (digits : List Char) : Option Char :=
  if digits.all (isDigitOf 16) then
    let n := digitsValue 16 digits
    if n.isValidChar then some (Char.ofNat n) else none
  else none

/-- The character that a letter stands for after a backslash. -/
def shortEscape? (c : Char) : Option Char :=
  if c = 'b' then some '\x08'
  else if c = 't' then some '\t'
  else if c = 'n' then some '\n'
  else if c = 'f' then some '\x0c'
  else if c = 'r' then some '\r'
  else if c = '"' then some '"'
  else if c = '\\' then some '\\'
  else none

/-- Reads a string from after its opening quotation mark. `before` holds the characters so far in
reverse. -/
def readBasic (before : List Char) : List Char → Option (String × List Char)
  | '"' :: rest => some (String.ofList before.reverse, rest)
  | '\\' :: 'u' :: a :: b :: c :: d :: rest =>
    match scalar? [a, b, c, d] with
    | some x => readBasic (x :: before) rest
    | none => none
  | '\\' :: 'U' :: a :: b :: c :: d :: e :: f :: g :: h :: rest =>
    match scalar? [a, b, c, d, e, f, g, h] with
    | some x => readBasic (x :: before) rest
    | none => none
  | '\\' :: c :: rest =>
    match shortEscape? c with
    | some x => readBasic (x :: before) rest
    | none => none
  | c :: rest => if isTextChar c && c ≠ '\\' then readBasic (c :: before) rest else none
  | [] => none

/-- Whether blanks and then a line end follow. -/
def endsLine (cs : List Char) : Bool :=
  (newline? (skipBlanks cs)).isSome

/-- Reads a string of several lines from after its three quotation marks. Up to two more marks may
stand in front of the closing ones. While `skipping`, blanks and line ends are left out; this begins
with a backslash at the end of a line. -/
def readLongBasic (skipping : Bool) (before : List Char) : List Char → Option (String × List Char)
  | '"' :: '"' :: '"' :: '"' :: '"' :: rest =>
    some (String.ofList ('"' :: '"' :: before).reverse, rest)
  | '"' :: '"' :: '"' :: '"' :: rest => some (String.ofList ('"' :: before).reverse, rest)
  | '"' :: '"' :: '"' :: rest => some (String.ofList before.reverse, rest)
  | '\r' :: '\n' :: rest =>
    readLongBasic skipping (if skipping then before else '\n' :: before) rest
  | '\\' :: 'u' :: a :: b :: c :: d :: rest =>
    match scalar? [a, b, c, d] with
    | some x => readLongBasic false (x :: before) rest
    | none => none
  | '\\' :: 'U' :: a :: b :: c :: d :: e :: f :: g :: h :: rest =>
    match scalar? [a, b, c, d, e, f, g, h] with
    | some x => readLongBasic false (x :: before) rest
    | none => none
  | '\\' :: c :: rest =>
    if endsLine (c :: rest) then readLongBasic true before (c :: rest)
    else
      match shortEscape? c with
      | some x => readLongBasic false (x :: before) rest
      | none => none
  | c :: rest =>
    if skipping && (isBlank c || c = '\n') then readLongBasic true before rest
    else if c = '\n' || (isTextChar c && c ≠ '\\') then readLongBasic false (c :: before) rest
    else none
  | [] => none

/-- A character of a string between apostrophes. -/
def isLiteralChar (c : Char) : Bool :=
  isTextChar c && c ≠ '\''

/-- Reads a string from after its opening apostrophe. -/
def readLiteral (cs : List Char) : Option (String × List Char) :=
  match cs.dropWhile isLiteralChar with
  | '\'' :: rest => some (String.ofList (cs.takeWhile isLiteralChar), rest)
  | _ => none

/-- Reads a string of several lines from after its three apostrophes. -/
def readLongLiteral (before : List Char) : List Char → Option (String × List Char)
  | '\'' :: '\'' :: '\'' :: '\'' :: '\'' :: rest =>
    some (String.ofList ('\'' :: '\'' :: before).reverse, rest)
  | '\'' :: '\'' :: '\'' :: '\'' :: rest => some (String.ofList ('\'' :: before).reverse, rest)
  | '\'' :: '\'' :: '\'' :: rest => some (String.ofList before.reverse, rest)
  | '\r' :: '\n' :: rest => readLongLiteral ('\n' :: before) rest
  | c :: rest =>
    if c = '\n' || isTextChar c then readLongLiteral (c :: before) rest else none
  | [] => none

/-- The rest of a string of several lines, whose first line may be empty. -/
def afterFirstNewline (cs : List Char) : List Char :=
  (newline? cs).getD cs

/-- Reads a string, if one is in front. -/
def readString? : List Char → Option (String × List Char)
  | '"' :: '"' :: '"' :: rest => readLongBasic false [] (afterFirstNewline rest)
  | '"' :: rest => readBasic [] rest
  | '\'' :: '\'' :: '\'' :: rest => readLongLiteral [] (afterFirstNewline rest)
  | '\'' :: rest => readLiteral rest
  | _ => none

/-! ### Keys -/

/-- A character of a key without quotation marks. -/
def isKeyChar (c : Char) : Bool :=
  c.isAlphanum || c = '_' || c = '-'

/-- Reads one key. -/
def readSimpleKey : List Char → Option (String × List Char)
  | '"' :: rest => readBasic [] rest
  | '\'' :: rest => readLiteral rest
  | cs =>
    let key := cs.takeWhile isKeyChar
    if key.isEmpty then none else some (String.ofList key, cs.dropWhile isKeyChar)

/-- Reads keys with points between them, and the blanks around each. `fuel` is the number of
characters at least. Gives the keys before the last one, and the last one. -/
def readKey : (fuel : Nat) → List Char → Option (List String × String × List Char)
  | 0, _ => none
  | fuel + 1, cs =>
    match readSimpleKey (skipBlanks cs) with
    | none => none
    | some (key, rest) =>
      match skipBlanks rest with
      | '.' :: rest =>
        (readKey fuel rest).map fun (path, last, rest) => (key :: path, last, rest)
      | rest => some ([], key, rest)

/-! ### Numbers -/

/-- The integers that can be written. -/
def integer? (n : Int) : Option Setting :=
  if -(Nat.pow 2 63 : Int) ≤ n ∧ n < Nat.pow 2 63 then some (.integer n) else none

/-- Reads an integer of another base from after its mark. -/
def readBase (base : Nat) (cs : List Char) : Option (Setting × List Char) := do
  let (digits, rest) ← someDigits base cs
  let n ← integer? (digitsValue base digits)
  return (n, rest)

/-- Reads the digits before a point: no zero in front of others. -/
def readWhole : List Char → Option (List Char × List Char)
  | '0' :: rest => some (['0'], rest)
  | cs => someDigits 10 cs

/-- Reads the digits after a point, if there is one. -/
def readFraction? : List Char → Option (Option (List Char) × List Char)
  | '.' :: rest => (someDigits 10 rest).map fun (digits, rest) => (some digits, rest)
  | rest => some (none, rest)

/-- Reads an exponent, if there is one. -/
def readExponent? : List Char → Option (Option Int × List Char)
  | [] => some (none, [])
  | c :: rest =>
    if c = 'e' ∨ c = 'E' then
      let (negative, rest) :=
        match rest with
        | '-' :: rest => (true, rest)
        | '+' :: rest => (false, rest)
        | rest => (false, rest)
      (someDigits 10 rest).map fun (digits, rest) =>
        let n : Int := digitsValue 10 digits
        (some (if negative then -n else n), rest)
    else some (none, c :: rest)

/-- The number with a fraction or an exponent. Only numbers that are too small or representable are
accepted. -/
def real? (negative : Bool) (whole fraction : List Char) (exponent : Int) : Option Setting :=
  let digits := digitsValue 10 (whole ++ fraction)
  match Decimal.Double.ofDecimal negative digits (exponent - fraction.length) with
  | .infinite false => none
  | value => some (.real value)

/-- Reads a decimal number from after its sign. -/
def readDecimal (negative : Bool) (cs : List Char) : Option (Setting × List Char) := do
  let (whole, rest) ← readWhole cs
  let (fraction, rest) ← readFraction? rest
  let (exponent, rest) ← readExponent? rest
  match fraction, exponent with
  | none, none =>
    let n : Int := digitsValue 10 whole
    let value ← integer? (if negative then -n else n)
    return (value, rest)
  | _, _ =>
    let value ← real? negative whole (fraction.getD []) (exponent.getD 0)
    return (value, rest)

/-- Reads a number from after its sign. -/
def readSigned (negative : Bool) : List Char → Option (Setting × List Char)
  | 'i' :: 'n' :: 'f' :: rest => some (.real (.infinite negative), rest)
  | 'n' :: 'a' :: 'n' :: rest => some (.real .notANumber, rest)
  | cs => readDecimal negative cs

/-! ### Dates and times -/

/-- A number with zeros in front up to two or more digits. -/
def padded (width n : Nat) : String :=
  let digits := toString n
  String.ofList (List.replicate (width - digits.length) '0') ++ digits

/-- The number of days of a month. -/
def daysIn (year month : Nat) : Nat :=
  if month = 2 then
    if year % 4 = 0 ∧ (year % 100 ≠ 0 ∨ year % 400 = 0) then 29 else 28
  else if month = 4 ∨ month = 6 ∨ month = 9 ∨ month = 11 then 30
  else 31

/-- What follows a character. -/
def mark? (mark : Char) : List Char → Option (List Char)
  | c :: rest => if c = mark then some rest else none
  | [] => none

/-- Reads a date from after its year. -/
def readDate (year : Nat) (cs : List Char) : Option (String × List Char) := do
  let (month, rest) ← mark? '-' cs >>= fixedDigits 2
  let (day, rest) ← mark? '-' rest >>= fixedDigits 2
  if month = 0 ∨ 12 < month ∨ day = 0 ∨ daysIn year month < day then none
  else return (padded 4 year ++ "-" ++ padded 2 month ++ "-" ++ padded 2 day, rest)

/-- Reads the fraction of a second, if there is one: nine digits, without zeros at the end. -/
def readSecondFraction : List Char → Option (String × List Char)
  | '.' :: rest =>
    let digits := rest.takeWhile (isDigitOf 10)
    let kept := Decimal.withoutTrailingZeros (digits.take 9)
    if digits.isEmpty then none
    else
      some (if kept.isEmpty then "" else "." ++ String.ofList kept, rest.dropWhile (isDigitOf 10))
  | rest => some ("", rest)

/-- Reads a time from after its hour. -/
def readTime (hour : Nat) (cs : List Char) : Option (String × List Char) := do
  let (minute, rest) ← mark? ':' cs >>= fixedDigits 2
  let (second, rest) ← mark? ':' rest >>= fixedDigits 2
  let (fraction, rest) ← readSecondFraction rest
  if 23 < hour ∨ 59 < minute ∨ 60 < second then none
  else return (padded 2 hour ++ ":" ++ padded 2 minute ++ ":" ++ padded 2 second ++ fraction, rest)

/-- Reads the distance from Greenwich, if it is given. -/
def readOffset : List Char → Option (String × List Char)
  | [] => some ("", [])
  | c :: rest =>
    if c = 'Z' ∨ c = 'z' then some ("Z", rest)
    else if c = '+' ∨ c = '-' then do
      let (hour, rest) ← fixedDigits 2 rest
      let (minute, rest) ← mark? ':' rest >>= fixedDigits 2
      if 23 < hour ∨ 59 < minute then none
      else
        let sign := if c = '-' ∧ 0 < hour + minute then "-" else "+"
        return (sign ++ padded 2 hour ++ ":" ++ padded 2 minute, rest)
    else some ("", c :: rest)

/-- Reads the time that belongs to a date, if there is one. -/
def readTimeOfDay : List Char → Option (String × List Char)
  | [] => some ("", [])
  | c :: rest =>
    match if c = 'T' ∨ c = 't' ∨ c = ' ' then fixedDigits 2 rest else none with
    | none => some ("", c :: rest)
    | some (hour, rest) => do
      let (time, rest) ← readTime hour rest
      let (offset, rest) ← readOffset rest
      return ("T" ++ time ++ offset, rest)

/-- Reads a date or a time, if one is in front. The outer `none` is a broken one. -/
def readMoment (cs : List Char) : Option (Option (String × List Char)) :=
  match fixedDigits 4 cs with
  | some (year, '-' :: rest) => do
    let (date, rest) ← readDate year ('-' :: rest)
    let (time, rest) ← readTimeOfDay rest
    return some (date ++ time, rest)
  | _ =>
    match fixedDigits 2 cs with
    | some (hour, ':' :: rest) => (readTime hour (':' :: rest)).map some
    | _ => some none

/-- Reads a number, a date or a time. -/
def readNumber : List Char → Option (Setting × List Char)
  | '0' :: 'x' :: rest => readBase 16 rest
  | '0' :: 'o' :: rest => readBase 8 rest
  | '0' :: 'b' :: rest => readBase 2 rest
  | '+' :: rest => readSigned false rest
  | '-' :: rest => readSigned true rest
  | cs =>
    match readMoment cs with
    | none => none
    | some (some (moment, rest)) => some (.text moment, rest)
    | some none => readSigned false cs

end ShardGossip.Toml
