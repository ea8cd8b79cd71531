import ReportTally.Number.Ratio
import ReportTally.Report.Json

/-!
# Counters of assembly traces

The statistics of a trace are eighteen counts, three summed percentages and the analysis time.
`Counters` keeps them under their names: `counts` for a `Count`, `shares` for a `Share`.
Counts add up as counters do, so they stop at the ends of their range.

* `get_bump` and `get_add` say what one more value and a sum do to each count.
-/

namespace ReportTally.Trace

/-- What a trace counts. -/
inductive Count where
  /-- All methods. -/
  | methods
  /-- Methods whose analysis failed. -/
  | failedMethods
  /-- Methods that work on columns. -/
  | interestingMethods
  /-- Methods that use what the analysis does not support. -/
  | unsupportedMethods
  /-- Interesting methods whose column accesses are resolved. -/
  | concreteMethods
  /-- Concrete methods that are mapped back to a plan. -/
  | concreteMethodsMapped
  /-- Methods that use fewer columns than the schema has, inputs and outputs taken together. -/
  | unionUnused
  /-- Methods that use all columns. -/
  | unionAllUsed
  /-- Methods that seem to use more columns than the schema has. -/
  | unionSuperset
  /-- Methods that leave input columns unused. -/
  | inputUnused
  /-- Methods that use all input columns. -/
  | inputAllUsed
  /-- Methods that leave output columns unused. -/
  | outputUnused
  /-- Methods that use all output columns. -/
  | outputAllUsed
  /-- Column accesses by name. -/
  | stringAccesses
  /-- Column accesses by position. -/
  | indexAccesses
  /-- Unused columns, inputs and outputs taken together. -/
  | unionSavings
  /-- Unused input columns. -/
  | inputSavings
  /-- Unused output columns. -/
  | outputSavings
  deriving DecidableEq, Repr

/-- Percentages of unused columns, summed over methods. -/
inductive Share where
  /-- Of all columns. -/
  | union
  /-- Of the input columns. -/
  | input
  /-- Of the output columns. -/
  | output
  deriving DecidableEq, Repr

/-- The place of a count. -/
def Count.index (k : Count) : Fin 18 :=
  Fin.ofNat 18 k.ctorIdx

/-- The place of a share. -/
def Share.index (s : Share) : Fin 3 :=
  Fin.ofNat 3 s.ctorIdx

theorem Count.index_inj {j k : Count} : j.index = k.index ↔ j = k := by
  cases j <;> cases k <;> decide

theorem Share.index_inj {r s : Share} : r.index = s.index ↔ r = s := by
  cases r <;> cases s <;> decide

/-- The statistics of one trace or of many. -/
structure Counters where
  /-- The counts, each at its place. -/
  counts : Vector Counter 18 := Vector.replicate 18 0
  /-- The shares, each at its place. -/
  shares : Vector Float 3 := Vector.replicate 3 0
  /-- The time of the analysis in seconds. -/
  seconds : Float := 0

namespace Counters

/-- Nothing counted. -/
def zero : Counters := ⟨Vector.replicate 18 0, Vector.replicate 3 0, 0⟩

/-- A count. -/
def get (c : Counters) (k : Count) : Counter :=
  c.counts[k.index]

/-- A share. -/
def getShare (c : Counters) (s : Share) : Float :=
  c.shares[s.index]

/-- One count raised by `n`. -/
def bump (c : Counters) (k : Count) (n : Counter) : Counters :=
  ⟨c.counts.set k.index (Counter.add (c.get k) n), c.shares, c.seconds⟩

/-- One share raised by `x`. -/
def bumpShare (c : Counters) (s : Share) (x : Float) : Counters :=
  ⟨c.counts, c.shares.set s.index (c.getShare s + x), c.seconds⟩

/-- The time raised by `x`. -/
def bumpSeconds (c : Counters) (x : Float) : Counters :=
  ⟨c.counts, c.shares, c.seconds + x⟩

/-- The sums of all counts, shares and times. -/
def add (c d : Counters) : Counters :=
  ⟨Vector.zipWith Counter.add c.counts d.counts, Vector.zipWith (· + ·) c.shares d.shares,
    c.seconds + d.seconds⟩

theorem get_bump (c : Counters) (k j : Count) (n : Counter) :
    (c.bump k n).get j = if j = k then Counter.add (c.get j) n else c.get j := by
  unfold get bump
  simp only [Fin.getElem_fin, Vector.getElem_set]
  split
  · next h =>
    have : k = j := Count.index_inj.1 (Fin.ext h)
    subst this
    simp [get]
  · next h =>
    rw [if_neg]
    rintro rfl
    exact h rfl

@[simp] theorem get_bumpShare (c : Counters) (s : Share) (x : Float) (j : Count) :
    (c.bumpShare s x).get j = c.get j :=
  rfl

@[simp] theorem get_bumpSeconds (c : Counters) (x : Float) (j : Count) :
    (c.bumpSeconds x).get j = c.get j :=
  rfl

@[simp] theorem get_add (c d : Counters) (k : Count) :
    (c.add d).get k = Counter.add (c.get k) (d.get k) := by
  simp [get, add]

@[simp] theorem get_zero (k : Count) : zero.get k = 0 := by
  simp [get, zero]

/-- The members of a document, in the order in which they are written. -/
def members (c : Counters) : List (Text × Json) :=
  let count (name : String) (k : Count) : Text × Json := (name.toList, .integer (c.get k).toInt)
  let share (name : String) (s : Share) : Text × Json := (name.toList, .number (c.getShare s))
  [count "methods" .methods,
    count "failed_methods" .failedMethods,
    count "interesting_methods" .interestingMethods,
    count "unsupported_methods" .unsupportedMethods,
    count "concrete_methods" .concreteMethods,
    count "concrete_methods_mapped" .concreteMethodsMapped,
    count "union_unused" .unionUnused,
    count "union_all_used" .unionAllUsed,
    count "union_superset" .unionSuperset,
    count "input_unused" .inputUnused,
    count "input_all_used" .inputAllUsed,
    count "output_unused" .outputUnused,
    count "output_all_used" .outputAllUsed,
    count "string_accesses" .stringAccesses,
    count "index_accesses" .indexAccesses,
    count "union_savings" .unionSavings,
    share "union_percentage" .union,
    count "input_savings" .inputSavings,
    share "input_percentage" .input,
    count "output_savings" .outputSavings,
    share "output_percentage" .output,
    ("analysis_seconds".toList, .number c.seconds)]

end Counters

end ReportTally.Trace
