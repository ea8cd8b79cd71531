import ReportTally.Toml.Scalar

/-!
# TOML documents

A document is a sequence of lines. A line gives a value to a key, or opens the table that the
following keys belong to; a value may go on over several lines. `Toml.read?` reads all lines
(`Statement`) and carries them out one after another on the members read so far.

Arrays and inline tables may stand in each other up to `nestingLimit` levels, and a key has at most
so many parts.
-/

namespace ReportTally.Toml

/-- How many arrays and tables may stand in each other, and how many parts a key may have. -/
def nestingLimit : Nat := 79

namespace Reader

/-! ## Keys -/

/-- A character of a key without quotes. -/
def isBare (c : Char) : Bool :=
  c.isAlphanum || c = '_' || c = '-'

/-- The parts of a key, with points between them. -/
def key : Reader (List Text) := do
  let part : Reader Text := do
    spaces
    let k ← span1 isBare <|> quotedText
    spaces
    return k
  let parts ← separated part (exactly ['.'])
  if parts.length ≤ nestingLimit then return parts else failure

/-- A key, an equals sign and a value. -/
def pair (value : Reader Value) : Reader (List Text × Value) := do
  let k ← key
  exactly ['=']
  spaces
  let v ← value
  spaces
  return (k, v)

/-! ## Values -/

/-- An array. A comma may follow the last item. -/
def array (value : Reader Value) : Reader Value := do
  let item : Reader Value := do
    gap
    let v ← value
    gap
    return v
  let items : Reader (List Value) := do
    let vs ← separated item (exactly [','])
    let _ ← option (exactly [','])
    return vs
  exactly ['[']
  let vs ← items <|> return []
  gap
  exactly [']']
  return .array vs

/-- A table between braces. -/
def inlineTable (value : Reader Value) : Reader Value := do
  exactly ['\x7b']
  let pairs ← separated (pair value) (exactly [',']) <|> return []
  spaces
  exactly ['\x7d']
  let members ← (pairs.foldlM (fun ms (k, v) => Members.putDotted v k ms) [] : Option Members)
  return .table .inline members

/-- A value in which so many arrays and tables may stand in each other. -/
def value : Nat → Reader Value
  | 0 => scalar
  | depth + 1 => scalar <|> array (value depth) <|> inlineTable (value depth)

end Reader

/-! ## Statements -/

/-- What a line says. -/
inductive Statement where
  /-- Nothing. -/
  | blank
  /-- That a table follows. -/
  | header (path : List Text)
  /-- That one more table of an array follows. -/
  | itemHeader (path : List Text)
  /-- The value of a key. -/
  | pair (key : List Text) (value : Value)

namespace Reader

/-- The header of a table, or of one more table of an array. -/
def header : Reader Statement :=
  (do
    exactly ['[', '[']
    let path ← key
    exactly [']', ']']
    return .itemHeader path) <|> do
    exactly ['[']
    let path ← key
    exactly [']']
    return .header path

/-- A line with its end. -/
def statement : Reader Statement := do
  spaces
  let s ← header <|> (fun (k, v) => .pair k v) <$> pair (value nestingLimit) <|> return .blank
  restOfLine
  return s

/-- All lines, up to the end of the text. A byte order mark may stand before them. -/
def statements : Reader (List Statement) := do
  let _ ← option (exactly ['\uFEFF'])
  let lines ← many do
    if (← peek).isNone then failure else statement
  ended
  return lines

end Reader

/-! ## Documents -/

/-- The part of a document that has been read. -/
structure Draft where
  /-- The members of the document. -/
  members : Members := []
  /-- The path of the table that the last header opened. -/
  header : List Text := []

/-- One line more. -/
def Draft.add (d : Draft) : Statement → Option Draft
  | .blank => some d
  | .header path => (Members.define path d.members).map fun ms => ⟨ms, path⟩
  | .itemHeader path => (Members.extend path d.members).map fun ms => ⟨ms, path⟩
  | .pair key value =>
    (Members.within (Members.putDotted value key) d.header d.members).map fun ms => ⟨ms, d.header⟩

/-- The members of a document. -/
def read? (t : Text) : Option Members := do
  let (lines, _) ← Reader.statements t
  let d ← lines.foldlM Draft.add {}
  return d.members

end ReportTally.Toml
