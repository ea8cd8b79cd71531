import ReportTally.Number.Binary64

/-!
# Ratios

Every derived number of a summary is a quotient of two totals. A total may be zero, of an empty
folder for instance, and then the quotient is reported as zero.
-/

namespace ReportTally

/-- `a / b`, and zero if `b` is zero of either sign. -/
def ratio (a b : Float) : Float :=
  if b == 0 then 0 else a / b

/-- The ratio in hundredths. -/
def percentage (a b : Float) : Float :=
  ratio a b * 100

end ReportTally
