import ReportTally.Payload
import ReportTally.Text.Lines
import ReportTally.Text.Search
import ReportTally.Trace.Counters

/-!
# Reading an assembly trace

A trace is the log of the analysis of one assembly. It counts only if the analysis finished:
the log ends with `SUCCESS`, no load failure occurs in it, and the banner before the statistics
stands in it exactly once. Any other trace is a failure of that assembly and no flaw, whatever
its lines look like.

The statistics are marker lines (`markers`). A line without a known marker says nothing, and a
marker line whose payload cannot be read is a flaw. A trace without interesting methods adds no
time.

`Outcome.ofTextWith` reads a trace by any table of markers, `Outcome.ofText` by `markers`.
-/

namespace ReportTally.Trace

/-! ## Markers -/

/-- What a marker line feeds. -/
inductive Feeds where
  /-- A count. -/
  | count (k : Count)
  /-- A share. -/
  | share (s : Share)
  /-- The time. -/
  | time
  deriving DecidableEq, Repr

/-- How a marker line starts, and what it feeds. -/
structure Marker where
  /-- The start of the line. -/
  label : Text
  /-- What the payload is added to. -/
  feeds : Feeds
  deriving DecidableEq, Repr

/-- The marker of a count. -/
def Marker.count (label : String) (k : Count) : Marker :=
  ⟨label.toList, .count k⟩

/-- The marker of a share. -/
def Marker.share (label : String) (s : Share) : Marker :=
  ⟨label.toList, .share s⟩

/-- The known markers. A line belongs to the first one that it starts with. -/
def markers : List Marker :=
  [.count "Methods:" .methods,
    .count "Methods failed" .failedMethods,
    .count "Interesting methods" .interestingMethods,
    .count "Unsupported" .unsupportedMethods,
    .count "Concrete-columns" .concreteMethods,
    .count "Concrete methods" .concreteMethodsMapped,
    .count "Union unused:" .unionUnused,
    .count "Union all used" .unionAllUsed,
    .count "Union superset" .unionSuperset,
    .count "Input unused:" .inputUnused,
    .count "Input all used" .inputAllUsed,
    .count "Output unused:" .outputUnused,
    .count "Output all used" .outputAllUsed,
    .count "Used columns string accesses" .stringAccesses,
    .count "Used columns index accesses" .indexAccesses,
    .count "!Union columns count cumulative" .unionSavings,
    .share "!Union columns percentage count cumulative" .union,
    .count "!Input columns count cumulative" .inputSavings,
    .share "!Input columns percentage count cumulative" .input,
    .count "!Output columns count cumulative" .outputSavings,
    .share "!Output columns percentage count cumulative" .output,
    ⟨"Total analysis time".toList, .time⟩]

/-! ## Statistics -/

/-- What a finished trace says. -/
structure Statistics where
  /-- The totals of the marker lines. -/
  counters : Counters
  /-- Has the assembly interesting methods? -/
  interesting : Bool

namespace Statistics

/-- Before the first line an assembly counts as interesting. -/
def start : Statistics :=
  ⟨.zero, true⟩

/-- A marker line, given without blanks at its ends. A count of no interesting methods makes the
assembly uninteresting for good, and a time counts only while it is interesting. -/
def feed (s : Statistics) (m : Marker) (line : Text) : Except Flaw Statistics :=
  match m.feeds with
  | .count k => do
    let n ← Payload.integer m.label line
    return ⟨s.counters.bump k n, s.interesting && !(k = .interestingMethods && n = 0)⟩
  | .share r => do
    let x ← Payload.number m.label line
    return ⟨s.counters.bumpShare r x, s.interesting⟩
  | .time => do
    let x ← Payload.elapsed m.label line
    return if s.interesting then ⟨s.counters.bumpSeconds x, true⟩ else s

/-- Any line. -/
def feedLine (table : List Marker) (s : Statistics) (line : Text) : Except Flaw Statistics :=
  let line := Text.trim line
  match table.find? fun m => m.label.isPrefixOf line with
  | none => .ok s
  | some m => s.feed m line

/-- The statistics part of a trace. -/
def ofText (table : List Marker) (t : Text) : Except Flaw Statistics :=
  (Text.lines t).foldlM (feedLine table) start

end Statistics

/-! ## Outcomes -/

/-- What comes of a trace. -/
inductive Outcome where
  /-- The analysis finished, with these statistics. -/
  | parsed (s : Statistics)
  /-- The analysis did not finish; `native` if the assembly is no managed module. -/
  | unfinished (native : Bool)
  /-- The banner is missing or repeated, and divides the trace into `segments`. -/
  | noStatistics (segments : Nat)

/-- The end of a finished trace. -/
def success : Text := "SUCCESS".toList

/-- What is logged when an assembly cannot be loaded. -/
def loadFailure : Text := "LOAD FAILURE".toList

/-- What is logged beside a load failure when the assembly is no managed module. -/
def notManaged : Text := "not a valid CLR module".toList

/-- The banner before the statistics. -/
def banner : Text := "Done analyzing the assembly".toList

/-- Does one line report a load failure and that the assembly is no managed module? -/
def isNative (t : Text) : Bool :=
  (Text.lines t).any fun line => Text.occurs loadFailure line && Text.occurs notManaged line

/-- Does the trace end with success, and without a load failure? -/
def isFinished (t : Text) : Bool :=
  success.isSuffixOf (Text.trim t) && !Text.occurs loadFailure t

namespace Outcome

/-- Reads a trace by a table of markers. -/
def ofTextWith (table : List Marker) (t : Text) : Except Flaw Outcome :=
  if isFinished t then
    match Text.pieces banner t with
    | [_, statistics] => do
      let s ← Statistics.ofText table statistics
      return .parsed s
    | pieces => .ok (.noStatistics pieces.length)
  else .ok (.unfinished (isNative t))

/-- Reads a trace. -/
def ofText (t : Text) : Except Flaw Outcome :=
  ofTextWith markers t

end Outcome

end ReportTally.Trace
