import ReportTally.Number.Numeral

/-!
# A reader of JSON

`Json.read?` reads JSON texts by the grammar of the format, whoever has written them: blanks
between the tokens, every escape, numbers with a fraction or an exponent, and nothing else. It
keeps what a text says in full: the members of a record stand in their order with their names, also
where a name is repeated, and a number is kept as it is written.

The reader counts down from the length of the text. No value is longer than the text it stands in,
so the count is never what stops it.
-/

namespace ReportTally.Json

/-- What a JSON text says. -/
inductive Tree where
  /-- Nothing. -/
  | null
  /-- A truth value. -/
  | boolean (b : Bool)
  /-- A number, as it is written. -/
  | number (token : Text)
  /-- A text. -/
  | text (t : Text)
  /-- A list. -/
  | list (items : List Tree)
  /-- A record of named members. -/
  | record (members : List (Text × Tree))

/-! ## Blanks -/

/-- The characters that may stand between tokens. -/
def isSpace (c : Char) : Bool :=
  c = ' ' || c = '\n' || c = '\r' || c = '\t'

/-- A text from its first character that is no space. -/
def skip (t : Text) : Text :=
  t.dropWhile isSpace

/-! ## Numbers -/

/-- The sign of a number. Only a minus sign is one. -/
def sign : Text → Text × Text
  | '-' :: t => (['-'], t)
  | t => ([], t)

/-- A run of digits and what follows. -/
def digits? (t : Text) : Option (Text × Text) :=
  if (t.takeWhile Numeral.isDigit).isEmpty then none
  else some (t.takeWhile Numeral.isDigit, t.dropWhile Numeral.isDigit)

/-- The digits before the point. After a leading zero there are no more of them. -/
def whole? : Text → Option (Text × Text)
  | '0' :: t => some (['0'], t)
  | t => digits? t

/-- A point and digits, if there is a point. -/
def fraction? : Text → Option (Text × Text)
  | '.' :: t => (digits? t).map fun (ds, t) => ('.' :: ds, t)
  | t => some ([], t)

/-- The digits of an exponent, perhaps after a sign. -/
def power? : Text → Option (Text × Text)
  | '-' :: t => (digits? t).map fun (ds, t) => ('-' :: ds, t)
  | '+' :: t => (digits? t).map fun (ds, t) => ('+' :: ds, t)
  | t => digits? t

/-- An exponent, if there is one. -/
def exponent? : Text → Option (Text × Text)
  | 'e' :: t => (power? t).map fun (p, t) => ('e' :: p, t)
  | 'E' :: t => (power? t).map fun (p, t) => ('E' :: p, t)
  | t => some ([], t)

/-- A number and what follows. -/
def number? (t : Text) : Option (Text × Text) := do
  let (sign, t) := sign t
  let (whole, t) ← whole? t
  let (fraction, t) ← fraction? t
  let (exponent, t) ← exponent? t
  return (sign ++ whole ++ fraction ++ exponent, t)

/-! ## Texts -/

/-- The value of a hexadecimal digit. -/
def hex? (c : Char) : Option Nat :=
  if '0' ≤ c && c ≤ '9' then some (c.toNat - '0'.toNat)
  else if 'a' ≤ c && c ≤ 'f' then some (c.toNat - 'a'.toNat + 10)
  else if 'A' ≤ c && c ≤ 'F' then some (c.toNat - 'A'.toNat + 10)
  else none

/-- Four hexadecimal digits. -/
def unit? : Text → Option (Nat × Text)
  | a :: b :: c :: d :: t => do
    return (0x1000 * (← hex? a) + 0x100 * (← hex? b) + 0x10 * (← hex? c) + (← hex? d), t)
  | _ => none

/-- A character by its code, which is one unit or a pair of surrogates. -/
def coded? (t : Text) : Option (Char × Text) := do
  let (high, t) ← unit? t
  if high < 0xD800 || 0xDFFF < high then return (Char.ofNat high, t)
  else if 0xDBFF < high then none
  else match t with
    | '\\' :: 'u' :: t => do
      let (low, t) ← unit? t
      if low < 0xDC00 || 0xDFFF < low then none
      else return (Char.ofNat (0x10000 + 0x400 * (high - 0xD800) + (low - 0xDC00)), t)
    | _ => none

/-- What follows a backslash. -/
def escaped? : Text → Option (Char × Text)
  | [] => none
  | c :: t =>
    if c = '"' || c = '\\' || c = '/' then some (c, t)
    else if c = 'b' then some ('\x08', t)
    else if c = 'f' then some ('\x0c', t)
    else if c = 'n' then some ('\n', t)
    else if c = 'r' then some ('\r', t)
    else if c = 't' then some ('\t', t)
    else if c = 'u' then coded? t
    else none

/-- One character of a text. Controls have to be escaped. -/
def character? : Text → Option (Char × Text)
  | [] => none
  | c :: t =>
    if c = '\\' then escaped? t
    else if 0x20 ≤ c.toNat then some (c, t)
    else none

/-- At most so many characters, and the closing quote. -/
def characters? : Nat → Text → Option (Text × Text)
  | _, '"' :: t => some ([], t)
  | 0, _ => none
  | n + 1, t => do
    let (c, t) ← character? t
    let (cs, t) ← characters? n t
    return (c :: cs, t)

/-- A text after its opening quote. -/
def text? (t : Text) : Option (Text × Text) :=
  characters? t.length t

/-! ## Values -/

/-- A value that is named by a word. -/
def word? : Text → Option (Tree × Text)
  | 'n' :: 'u' :: 'l' :: 'l' :: t => some (.null, t)
  | 't' :: 'r' :: 'u' :: 'e' :: t => some (.boolean true, t)
  | 'f' :: 'a' :: 'l' :: 's' :: 'e' :: t => some (.boolean false, t)
  | _ => none

mutual

/-- A value after blanks, and what follows. -/
def value? : Nat → Text → Option (Tree × Text)
  | 0, _ => none
  | n + 1, t =>
    match skip t with
    | '"' :: t => (text? t).map fun (s, t) => (.text s, t)
    | '[' :: t =>
      match skip t with
      | ']' :: t => some (.list [], t)
      | t => (items? n t).map fun (items, t) => (.list items, t)
    | '\x7b' :: t =>
      match skip t with
      | '\x7d' :: t => some (.record [], t)
      | t => (members? n t).map fun (members, t) => (.record members, t)
    | t => word? t <|> (number? t).map fun (token, t) => (.number token, t)

/-- Items between commas, up to the closing bracket. -/
def items? : Nat → Text → Option (List Tree × Text)
  | 0, _ => none
  | n + 1, t => do
    let (item, t) ← value? n t
    match skip t with
    | ',' :: t => do
      let (items, t) ← items? n t
      return (item :: items, t)
    | ']' :: t => return ([item], t)
    | _ => none

/-- Members between commas, up to the closing bracket. -/
def members? : Nat → Text → Option (List (Text × Tree) × Text)
  | 0, _ => none
  | n + 1, t => do
    let (name, t) ← match skip t with
      | '"' :: t => text? t
      | _ => none
    let (value, t) ← match skip t with
      | ':' :: t => value? n t
      | _ => none
    match skip t with
    | ',' :: t => do
      let (members, t) ← members? n t
      return ((name, value) :: members, t)
    | '\x7d' :: t => return ([(name, value)], t)
    | _ => none

end

/-- Reads a text that is one JSON value, with blanks around it. -/
def read? (t : Text) : Option Tree := do
  let (value, t) ← value? t.length t
  if (skip t).isEmpty then return value else none

end ReportTally.Json
