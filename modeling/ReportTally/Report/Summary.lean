import ReportTally.Classes
import ReportTally.Exceptions
import ReportTally.Mapping
import ReportTally.Passthrough
import ReportTally.Report.Kind
import ReportTally.Savings
import ReportTally.Trace.Summary

/-!
# Summaries of all kinds

`Tally` is the state of a run over reports of one kind: `Tally.start`, `Tally.feed` for each
report and `Tally.finish`. The result is a `Summary`, which is rendered in a `Format`.

`summarize` feeds named reports in order. It stops at the first flaw and says in which report it
stands.
-/

namespace ReportTally

/-- What is known as generated code, and how much of a log is reported. -/
structure Rules where
  /-- How the names of generated assemblies end. -/
  generatedSuffix : Text
  /-- What the names of generated classes contain. -/
  generatedNames : List Text
  /-- How many lines are reported after an exception. -/
  contextLines : Nat

/-- What is reported about a folder. -/
inductive Summary where
  /-- About traces. -/
  | traces (s : Trace.Summary)
  /-- About mapping files. -/
  | mappings (s : Mapping.Summary)
  /-- About savings. -/
  | savings (s : Savings.Summary)
  /-- About passthrough reports. -/
  | passthrough (s : Passthrough.Summary)
  /-- About classes. -/
  | classes (s : Classes.Summary)
  /-- About exceptions. -/
  | exceptions (s : Exceptions.Summary)

namespace Summary

/-- The labelled lines of a summary. -/
def text : Summary → Text
  | traces s => s.text
  | mappings s => s.text
  | savings s => s.text
  | passthrough s => s.text
  | classes s => s.text
  | exceptions s => s.text

/-- The summary as a value. -/
def json : Summary → Json
  | traces s => s.json
  | mappings s => s.json
  | savings s => s.json
  | passthrough s => s.json
  | classes s => s.json
  | exceptions s => s.json

/-- The summary in a format. -/
def render (s : Summary) : Format → Text
  | .text => s.text
  | .json => s.json.document

end Summary

/-- What is known after some reports of one kind. -/
inductive Tally where
  /-- About traces. -/
  | traces (t : Trace.Tally)
  /-- About mapping files. -/
  | mappings (s : Mapping.Summary)
  /-- About savings. -/
  | savings (t : Savings.Tally)
  /-- About passthrough reports. -/
  | passthrough (t : Passthrough.Tally)
  /-- About classes. -/
  | classes (s : Classes.Summary)
  /-- About exceptions. -/
  | exceptions (s : Exceptions.Summary)

namespace Tally

/-- Before the first report. -/
def start : Kind → Tally
  | .traces => traces {}
  | .mappings => mappings {}
  | .savings => savings {}
  | .passthrough => passthrough {}
  | .classes => classes {}
  | .exceptions => exceptions {}

/-- One report more. -/
def feed (rules : Rules) (file contents : Text) : Tally → Except Flaw Tally
  | traces t => return traces (t.add (← Trace.Outcome.ofText contents))
  | mappings s => return mappings (s.add (.ofText contents))
  | savings t => return savings (t.add (← Savings.Trace.ofText contents))
  | passthrough t => return passthrough (← t.addFile rules.generatedNames file contents)
  | classes s => return classes (s.add (Classes.ofText rules.generatedNames contents))
  | exceptions s =>
    return exceptions (s.add file (Exceptions.context? rules.contextLines contents))

/-- The summary of the reports so far. -/
def finish (rules : Rules) (folder : Text) : Tally → Summary
  | traces t => .traces (t.finish folder)
  | mappings s => .mappings { s with folder := folder }
  | savings t => .savings (t.finish folder rules.generatedSuffix)
  | passthrough t => .passthrough (t.finish folder)
  | classes s => .classes { s with folder := folder }
  | exceptions s => .exceptions { s with folder := folder }

end Tally

/-- A report with its name. -/
structure Named where
  /-- The name of its file. -/
  name : Text
  /-- Its text. -/
  contents : Text
  deriving DecidableEq, Repr

/-- Feeds reports in order, up to the first one with a flaw. -/
def feedAll (rules : Rules) (t : Tally) : List Named → Except (Named × Flaw) Tally
  | [] => .ok t
  | r :: rs =>
    match t.feed rules r.name r.contents with
    | .error flaw => .error (r, flaw)
    | .ok t => feedAll rules t rs

/-- The summary of reports of one kind, fed in order. -/
def summarize (rules : Rules) (kind : Kind) (folder : Text) (reports : List Named) :
    Except (Named × Flaw) Summary := do
  let t ← feedAll rules (.start kind) reports
  return t.finish rules folder

end ReportTally
