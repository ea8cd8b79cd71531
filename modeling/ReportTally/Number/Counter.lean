/-!
# Counters

A counter is a 64-bit signed integer that stops at the ends of its range instead of wrapping:
`Counter.add` is the exact sum, moved to the nearest end if it lies outside (`toInt_add`).
-/

namespace ReportTally

/-- A total of signed counts. -/
abbrev Counter := Int64

namespace Counter

/-- The least value of a counter, `-2 ^ 63`. -/
def least : Int := -0x8000000000000000

/-- The greatest value of a counter, `2 ^ 63 - 1`. -/
def greatest : Int := 0x7FFFFFFFFFFFFFFF

/-- The number nearest to `n` that a counter can hold. -/
def clamp (n : Int) : Int :=
  max least (min greatest n)

/-- The counter with value `n`, if `n` is in range. -/
def ofInt? (n : Int) : Option Counter :=
  if least ≤ n ∧ n ≤ greatest then some (Int64.ofInt n) else none

/-- The sum, held at the ends of the range. -/
def add (a b : Counter) : Counter :=
  Int64.ofIntClamp (a.toInt + b.toInt)

theorem least_le_toInt (a : Counter) : least ≤ a.toInt := by
  exact Int64.le_toInt a

theorem toInt_le_greatest (a : Counter) : a.toInt ≤ greatest := by
  have := Int64.toInt_lt a
  unfold greatest
  omega

theorem toInt_ofIntClamp (n : Int) : (Int64.ofIntClamp n).toInt = clamp n := by
  unfold clamp least greatest Int64.ofIntClamp
  split
  · split
    · rw [Int64.toInt_ofIntLE]
      rename_i h₁ h₂
      simp only [Int64.toInt_minValue, Int64.toInt_maxValue] at h₁ h₂
      omega
    · rename_i h₁ h₂
      simp only [Int64.toInt_minValue, Int64.toInt_maxValue] at h₁ h₂ ⊢
      omega
  · rename_i h
    simp only [Int64.toInt_minValue] at h ⊢
    omega

/-- A sum of two counters is the exact sum, moved into the range. -/
theorem toInt_add (a b : Counter) : (add a b).toInt = clamp (a.toInt + b.toInt) :=
  toInt_ofIntClamp _

end Counter

end ReportTally
