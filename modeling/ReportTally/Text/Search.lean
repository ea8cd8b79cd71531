import ReportTally.Text.Basic

/-!
# Searching in text

* `Text.occurs` says whether a text occurs in another (`occurs_iff`), `Text.position?` where it
  first does, and `Text.cutAt?` cuts there.
* `Text.pieces` cuts at every occurrence, from left to right, without overlaps.
-/

namespace ReportTally.Text

/-- Does `needle` occur in the text? -/
def occurs (needle : Text) : Text → Bool
  | [] => needle.isEmpty
  | c :: t => needle.isPrefixOf (c :: t) || occurs needle t

theorem occurs_iff {needle t : Text} : occurs needle t = true ↔ needle <:+: t := by
  induction t with
  | nil => simp [occurs]
  | cons c t ih => simp [occurs, List.infix_cons_iff, ih]

theorem occurs_eq_false_iff {needle t : Text} : occurs needle t = false ↔ ¬needle <:+: t := by
  rw [← Bool.not_eq_true, occurs_iff]

/-- The first position of `needle`, counted from `n`. -/
def positionFrom (needle : Text) (n : Nat) : Text → Option Nat
  | [] => if needle.isEmpty then some n else none
  | c :: t => if needle.isPrefixOf (c :: t) then some n else positionFrom needle (n + 1) t

/-- The first position at which `needle` occurs. -/
def position? (needle t : Text) : Option Nat :=
  positionFrom needle 0 t

/-- What stands before and after the first occurrence of `needle`. -/
def cutAt? (needle t : Text) : Option (Text × Text) :=
  (position? needle t).map fun n => (t.take n, t.drop (n + needle.length))

/-- The pieces between the occurrences of `needle`, found from left to right without
overlaps. -/
def pieces (needle t : Text) : List Text :=
  match cutAt? needle t with
  | none => [t]
  | some (first, rest) =>
    if rest.length < t.length then first :: pieces needle rest else [t]
termination_by t.length

/-- What follows `lead` at the start of the text. -/
def dropLead? (lead t : Text) : Option Text :=
  if lead.isPrefixOf t then some (t.drop lead.length) else none

end ReportTally.Text
