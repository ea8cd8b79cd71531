import ReportTally.Number.Decimal

/-!
# JSON documents

A summary is written either as labelled lines or as a JSON document. `Json` is what a summary has
to say, and `Json.document` writes it: one member or item on a line, two blanks of indent for
each level, and a line feed at the end.
-/

namespace ReportTally

/-- A JSON value. The members of a record stand in the order in which they are written. -/
inductive Json where
  /-- Nothing. -/
  | null
  /-- An integer of any size. -/
  | integer (n : Int)
  /-- A float. One that is not finite is written as nothing. -/
  | number (x : Float)
  /-- A text. -/
  | text (t : Text)
  /-- A list. -/
  | list (items : List Json)
  /-- A record of named members. -/
  | record (members : List (Text × Json))

namespace Json

/-- A hexadecimal digit. -/
def hexDigit (n : Nat) : Char :=
  Nat.digitChar (n % 16)

/-- A character inside quotes: quotes, backslashes and controls are escaped. -/
def escape (c : Char) : Text :=
  if c = '"' then ['\\', '"']
  else if c = '\\' then ['\\', '\\']
  else if 0x20 ≤ c.toNat then [c]
  else if c = '\x08' then ['\\', 'b']
  else if c = '\t' then ['\\', 't']
  else if c = '\n' then ['\\', 'n']
  else if c = '\x0c' then ['\\', 'f']
  else if c = '\r' then ['\\', 'r']
  else ['\\', 'u', '0', '0', hexDigit (c.toNat / 16), hexDigit c.toNat]

/-- A text in quotes. -/
def quoted (t : Text) : Text :=
  '"' :: (t.flatMap escape ++ ['"'])

/-- A new line at this level. -/
def newLine (level : Nat) : Text :=
  '\n' :: List.replicate (2 * level) ' '

/-- Items between two brackets, one on a line. Without items the brackets stand together. -/
def bracketed (first last : Char) (level : Nat) (items : List Text) : Text :=
  if items.isEmpty then [first, last]
  else
    first :: ([','].intercalate (items.map (newLine (level + 1) ++ ·)) ++ newLine level ++ [last])

mutual

/-- A value that starts on a line of this level. -/
def write (level : Nat) : Json → Text
  | null => "null".toList
  | integer n => Numeral.ofInt n
  | number x => (Decimal.token? x).getD "null".toList
  | text t => quoted t
  | list items => bracketed '[' ']' level (writeItems (level + 1) items)
  | record members => bracketed '\x7b' '\x7d' level (writeMembers (level + 1) members)

/-- The items of a list. -/
def writeItems (level : Nat) : List Json → List Text
  | [] => []
  | item :: items => write level item :: writeItems level items

/-- The members of a record, each with its name. -/
def writeMembers (level : Nat) : List (Text × Json) → List Text
  | [] => []
  | (name, value) :: members =>
    (quoted name ++ ": ".toList ++ write level value) :: writeMembers level members

end

/-- A document: one value and a line feed. -/
def document (value : Json) : Text :=
  write 0 value ++ ['\n']

end Json

end ReportTally
