import ReportTally.Report.Labelled
import ReportTally.Trace.Outcome

/-!
# Summaries of assembly traces

A tally takes the outcomes of traces one by one. Failed traces are counted and say nothing else.
The averages are taken when the tally is finished, each over a total that may be zero.
-/

namespace ReportTally.Trace

/-- The outcomes so far. -/
structure Tally where
  /-- All traces. -/
  files : Nat := 0
  /-- Traces that did not finish or have no statistics. -/
  failed : Nat := 0
  /-- Failed traces of assemblies that are no managed modules. -/
  native : Nat := 0
  /-- Finished traces without interesting methods. -/
  notInteresting : Nat := 0
  /-- The totals of all finished traces. -/
  counters : Counters := .zero

/-- One trace more. -/
def Tally.add (t : Tally) : Outcome → Tally
  | .parsed s =>
    { t with
      files := t.files + 1
      notInteresting := t.notInteresting + if s.interesting then 0 else 1
      counters := t.counters.add s.counters }
  | .unfinished native =>
    { t with
      files := t.files + 1
      failed := t.failed + 1
      native := t.native + if native then 1 else 0 }
  | .noStatistics _ => { t with files := t.files + 1, failed := t.failed + 1 }

/-- Averages over methods and assemblies. -/
structure Averages where
  /-- Unused columns for each method that leaves some unused. -/
  unionColumns : Float := 0
  /-- The percentage of them. -/
  unionPercentage : Float := 0
  /-- Unused input columns for each method that leaves some unused. -/
  inputColumns : Float := 0
  /-- The percentage of them. -/
  inputPercentage : Float := 0
  /-- Unused output columns for each method that leaves some unused. -/
  outputColumns : Float := 0
  /-- The percentage of them. -/
  outputPercentage : Float := 0
  /-- Seconds for each interesting assembly. -/
  secondsPerAssembly : Float := 0
  /-- Seconds for each interesting method. -/
  secondsPerMethod : Float := 0

/-- The averages of the counters, with this number of interesting assemblies. -/
def Averages.of (c : Counters) (interesting : Nat) : Averages :=
  let count (k : Count) : Float := Binary64.ofCounter (c.get k)
  { unionColumns := ratio (count .unionSavings) (count .unionUnused)
    unionPercentage := ratio (c.getShare .union) (count .unionUnused)
    inputColumns := ratio (count .inputSavings) (count .inputUnused)
    inputPercentage := ratio (c.getShare .input) (count .inputUnused)
    outputColumns := ratio (count .outputSavings) (count .outputUnused)
    outputPercentage := ratio (c.getShare .output) (count .outputUnused)
    secondsPerAssembly := ratio c.seconds (Binary64.ofNat interesting)
    secondsPerMethod := ratio c.seconds (count .interestingMethods) }

/-- What is reported about a folder of traces. -/
structure Summary where
  /-- The folder. -/
  folder : Text := []
  /-- All traces. -/
  files : Nat := 0
  /-- Traces that did not finish or have no statistics. -/
  failed : Nat := 0
  /-- Failed traces of assemblies that are no managed modules. -/
  native : Nat := 0
  /-- Finished traces without interesting methods. -/
  notInteresting : Nat := 0
  /-- The totals of all finished traces. -/
  counters : Counters := .zero
  /-- The averages of the totals. -/
  averages : Averages := {}

namespace Summary

/-- The finished traces. -/
def succeeded (s : Summary) : Nat :=
  s.files - s.failed

/-- The finished traces with interesting methods. -/
def interesting (s : Summary) : Nat :=
  s.succeeded - s.notInteresting

end Summary

/-- The summary of the traces so far. -/
def Tally.finish (t : Tally) (folder : Text) : Summary :=
  let s : Summary :=
    { folder := folder
      files := t.files
      failed := t.failed
      native := t.native
      notInteresting := t.notInteresting
      counters := t.counters }
  { s with averages := .of t.counters s.interesting }

namespace Summary

open Labelled in
/-- The labelled lines of a summary, in four parts. -/
def text (s : Summary) : Text :=
  let total (label : String) (k : Count) : Text := counter label (s.counters.get k)
  let a := s.averages
  [line "Analyzing folder" s.folder,
    count "Assembly traces" s.files,
    count "Failed assemblies" s.failed,
    count "Native assemblies" s.native,
    count "Analyzed assemblies" s.succeeded,
    count "Interesting assemblies" s.interesting,
    ['\n'],
    total "Methods" .methods,
    total "Interesting methods" .interestingMethods,
    total "Failed methods" .failedMethods,
    total "Unsupported methods" .unsupportedMethods,
    total "Concrete methods" .concreteMethods,
    total "String column accesses" .stringAccesses,
    total "Index column accesses" .indexAccesses,
    total "Concrete methods mapped" .concreteMethodsMapped,
    ['\n'],
    total "Union unused methods" .unionUnused,
    total "Union all used methods" .unionAllUsed,
    total "Union superset methods" .unionSuperset,
    float "Average unused union columns" a.unionColumns,
    float "Average unused union percentage" a.unionPercentage,
    total "Input unused methods" .inputUnused,
    total "Input all used methods" .inputAllUsed,
    float "Average unused input columns" a.inputColumns,
    float "Average unused input percentage" a.inputPercentage,
    total "Output unused methods" .outputUnused,
    total "Output all used methods" .outputAllUsed,
    float "Average unused output columns" a.outputColumns,
    float "Average unused output percentage" a.outputPercentage,
    ['\n'],
    float "Total analysis seconds" s.counters.seconds,
    float "Seconds per interesting assembly" a.secondsPerAssembly,
    float "Seconds per interesting method" a.secondsPerMethod].flatten

/-- The summary as a document. -/
def json (s : Summary) : Json :=
  let a := s.averages
  .record
    [("folder".toList, .text s.folder),
      ("files".toList, .integer s.files),
      ("failed_assemblies".toList, .integer s.failed),
      ("native_assemblies".toList, .integer s.native),
      ("not_interesting_assemblies".toList, .integer s.notInteresting),
      ("counters".toList, .record s.counters.members),
      ("averages".toList, .record
        [("union_unused_columns".toList, .number a.unionColumns),
          ("union_unused_percentage".toList, .number a.unionPercentage),
          ("input_unused_columns".toList, .number a.inputColumns),
          ("input_unused_percentage".toList, .number a.inputPercentage),
          ("output_unused_columns".toList, .number a.outputColumns),
          ("output_unused_percentage".toList, .number a.outputPercentage),
          ("seconds_per_assembly".toList, .number a.secondsPerAssembly),
          ("seconds_per_method".toList, .number a.secondsPerMethod)])]

end Summary

end ReportTally.Trace
