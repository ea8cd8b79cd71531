import ReportTally.Text.Basic

/-!
# Lines

A line ends with a line feed, or with a carriage return and a line feed. What follows the last
line end is a line too unless it is empty. A carriage return anywhere else belongs to its line.

`lines` is given by four equations: `lines_nil`, `lines_lf`, `lines_crlf` and `lines_cons`.
-/

namespace ReportTally.Text

/-- One character in front of a text, given by its lines and by whether it starts with a line
feed. -/
def prependToLines (c : Char) (read : List Text × Bool) : List Text × Bool :=
  if c = '\n' then ([] :: read.1, true)
  else if c = '\r' && read.2 then (read.1, false)
  else (extendFirst c read.1, false)

/-- The lines of a text, without their ends. -/
def lines (t : Text) : List Text :=
  (t.foldr prependToLines ([], false)).1

@[simp] theorem lines_nil : lines [] = [] :=
  rfl

theorem foldr_prependToLines_snd (t : Text) :
    (t.foldr prependToLines ([], false)).2 = (t.head? == some '\n') := by
  cases t with
  | nil => rfl
  | cons c t =>
    rw [List.foldr_cons]
    generalize t.foldr prependToLines ([], false) = read
    unfold prependToLines
    split
    · simp_all
    · split <;> simp_all

@[simp] theorem lines_lf (t : Text) : lines ('\n' :: t) = [] :: lines t :=
  rfl

@[simp] theorem lines_crlf (t : Text) : lines ('\r' :: '\n' :: t) = [] :: lines t :=
  rfl

/-- A character that does not end a line belongs to the first line of the rest. -/
theorem lines_cons {c : Char} {t : Text} (h : c ≠ '\n') (hr : c = '\r' → t.head? ≠ some '\n') :
    lines (c :: t) = extendFirst c (lines t) := by
  have hs := foldr_prependToLines_snd t
  unfold lines
  rw [List.foldr_cons]
  generalize t.foldr prependToLines ([], false) = read at hs ⊢
  unfold prependToLines
  rw [if_neg h]
  split
  · next hc =>
    simp only [Bool.and_eq_true, decide_eq_true_eq] at hc
    exact absurd (by simpa [hc.2] using hs) (hr hc.1)
  · rfl

end ReportTally.Text
