import ReportTally.Text.Search

/-!
# Readers

A reader takes something off the front of a text, or fails. It is a state transformer, so readers
follow one another in `do` blocks, and `r <|> s` tries `s` on the same text where `r` fails.

`Reader.many` repeats a reader for as long as it succeeds. It counts the repetitions by the length
of the text, so it ends also where the reader takes nothing.

The last part has what may stand between the parts of a TOML document: blanks, comments and line
ends.
-/

namespace ReportTally.Toml

/-- Takes something off the front of a text, or fails. -/
abbrev Reader := StateT Text Option

namespace Reader

variable {α : Type}

/-- The next character, which stays. There is none at the end. -/
def peek : Reader (Option Char) :=
  fun t => some (t.head?, t)

/-- One character of a class. -/
def satisfy (p : Char → Bool) : Reader Char
  | [] => none
  | c :: t => if p c then some (c, t) else none

/-- This text. -/
def exactly (lead : Text) : Reader Unit :=
  fun t => (Text.dropLead? lead t).map ((), ·)

/-- All characters of a class up to the first other one. There may be none. -/
def span (p : Char → Bool) : Reader Text :=
  fun t => some (t.takeWhile p, t.dropWhile p)

/-- At least one character of a class. -/
def span1 (p : Char → Bool) : Reader Text := do
  let cs ← span p
  if cs.isEmpty then failure else return cs

/-- Characters of a class, as many as said. -/
def take (p : Char → Bool) (n : Nat) : Reader Text := fun t =>
  if n ≤ t.length && (t.take n).all p then some (t.take n, t.drop n) else none

/-- The end of the text. -/
def ended : Reader Unit
  | [] => some ((), [])
  | _ :: _ => none

/-- What a reader finds, if it succeeds. -/
def option (r : Reader α) : Reader (Option α) :=
  (some <$> r) <|> pure none

/-- At most `n` repetitions. -/
def repeated (r : Reader α) : Nat → Reader (List α)
  | 0 => return []
  | n + 1 => do
    match ← option r with
    | none => return []
    | some x => return x :: (← repeated r n)

/-- As many repetitions as there are. -/
def many (r : Reader α) : Reader (List α) :=
  fun t => repeated r (t.length + 1) t

/-- One and more, with something between them. -/
def separated (r : Reader α) (sep : Reader Unit) : Reader (List α) := do
  let x ← r
  let xs ← many (do sep; r)
  return x :: xs

/-! ## Blanks, comments and line ends -/

/-- Blanks within a line are spaces and tabs. -/
def isSpace (c : Char) : Bool :=
  c = ' ' || c = '\t'

/-- Any character but a control. A tab is no control. -/
def isPrintable (c : Char) : Bool :=
  c = '\t' || (0x20 ≤ c.toNat && c.toNat ≠ 0x7F)

/-- Blanks within a line. -/
def spaces : Reader Unit := do
  let _ ← span isSpace

/-- A line end. -/
def lineEnd : Reader Unit :=
  exactly ['\n'] <|> exactly ['\r', '\n']

/-- A comment, up to the end of its line. -/
def comment : Reader Unit := do
  exactly ['#']
  let _ ← span isPrintable

/-- What follows on a line that is complete. -/
def restOfLine : Reader Unit := do
  spaces
  let _ ← option comment
  lineEnd <|> ended

/-- Blanks, comments and line ends. -/
def gap : Reader Unit := do
  let _ ← many do
    spaces
    let _ ← option comment
    lineEnd
  spaces

end Reader

end ReportTally.Toml
