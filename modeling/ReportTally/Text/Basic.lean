/-!
# Text

Text is a list of characters. Reports, names, paths and messages are all text, and a
command line or a file enters the library only after it has been turned into one.

* `Text.isBlank` is the White_Space property, and `Text.trim` drops blanks at both ends.
* `Text.before` and `Text.after?` cut at the first separator.
* `Text.fields` cuts at every separator.
-/

namespace ReportTally

/-- A list of characters. -/
abbrev Text := List Char

namespace Text

/-! ## Blanks -/

/-- The White_Space property: the five controls from tab to carriage return, the space, and
the nineteen spaces and separators beyond ASCII. -/
def isBlank (c : Char) : Bool :=
  let n := c.toNat
  (0x09 ≤ n && n ≤ 0x0D) || n == 0x20 || n == 0x85 || n == 0xA0 || n == 0x1680 ||
    (0x2000 ≤ n && n ≤ 0x200A) || n == 0x2028 || n == 0x2029 || n == 0x202F || n == 0x205F ||
    n == 0x3000

/-- The text from its first character that is not blank. -/
def trimStart (t : Text) : Text :=
  t.dropWhile isBlank

/-- The text up to its last character that is not blank. -/
def trimEnd (t : Text) : Text :=
  (t.reverse.dropWhile isBlank).reverse

/-- The text without the blanks at its two ends. -/
def trim (t : Text) : Text :=
  trimEnd (trimStart t)

/-! ## Cutting at a character -/

/-- What stands before the first `sep`, the whole text if there is none. -/
def before (sep : Char) (t : Text) : Text :=
  t.takeWhile (· ≠ sep)

/-- What stands after the first `sep`, if there is one. -/
def after? (sep : Char) (t : Text) : Option Text :=
  match t.dropWhile (· ≠ sep) with
  | [] => none
  | _ :: rest => some rest

/-- One more character at the front of the first piece. -/
def extendFirst (c : Char) : List Text → List Text
  | [] => [[c]]
  | p :: ps => (c :: p) :: ps

/-- The pieces between the separators. There is one more piece than there are separators. -/
def fields (sep : Char) (t : Text) : List Text :=
  t.foldr (fun c ps => if c = sep then [] :: ps else extendFirst c ps) [[]]

@[simp] theorem fields_nil (sep : Char) : fields sep [] = [[]] :=
  rfl

theorem fields_cons (sep c : Char) (t : Text) :
    fields sep (c :: t) = if c = sep then [] :: fields sep t else extendFirst c (fields sep t) :=
  rfl

theorem extendFirst_ne_nil (c : Char) (ps : List Text) : extendFirst c ps ≠ [] := by
  cases ps <;> simp [extendFirst]

theorem fields_ne_nil (sep : Char) (t : Text) : fields sep t ≠ [] := by
  cases t with
  | nil => simp
  | cons c t =>
    rw [fields_cons]
    split
    · simp
    · exact extendFirst_ne_nil _ _

/-! ## Order -/

/-- Order by code points, which is the order of the UTF-8 bytes. -/
def le : Text → Text → Bool
  | [], _ => true
  | _ :: _, [] => false
  | a :: as, b :: bs => a.toNat < b.toNat || (a = b && le as bs)

end Text

end ReportTally
