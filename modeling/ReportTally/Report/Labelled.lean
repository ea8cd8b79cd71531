import ReportTally.Number.Decimal

/-!
# Labelled lines

A text report is a sequence of lines `Label: value`. Counts are written in full and floats with
two places.
-/

namespace ReportTally.Labelled

/-- A line with a text. -/
def line (label : String) (value : Text) : Text :=
  label.toList ++ ": ".toList ++ value ++ ['\n']

/-- A line with a count. -/
def count (label : String) (value : Nat) : Text :=
  line label (Numeral.ofNat value)

/-- A line with a counter. -/
def counter (label : String) (value : Counter) : Text :=
  line label (Numeral.ofCounter value)

/-- A line with a float. -/
def float (label : String) (value : Float) : Text :=
  line label (Decimal.twoPlaces value)

end ReportTally.Labelled
