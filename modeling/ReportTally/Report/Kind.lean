import ReportTally.Text.Basic

/-!
# Kinds of reports

A run reads the reports of one kind. A kind is also a command of the command line, and its name
is the same in both places.
-/

namespace ReportTally

/-- The kinds of reports. -/
inductive Kind where
  /-- Logs of the analysis of one assembly. -/
  | traces
  /-- Lists of mapped processors. -/
  | mappings
  /-- Savings of the processors of one assembly. -/
  | savings
  /-- Columns that pass through classes. -/
  | passthrough
  /-- Results that name classes. -/
  | classes
  /-- Logs that may throw an exception. -/
  | exceptions
  deriving DecidableEq, Repr

namespace Kind

/-- Every kind, in the order in which settings list them. -/
def all : List Kind :=
  [traces, mappings, savings, passthrough, classes, exceptions]

theorem mem_all (k : Kind) : k ∈ all := by
  cases k <;> decide

/-- The name of a kind. -/
def name : Kind → Text
  | traces => "traces".toList
  | mappings => "mappings".toList
  | savings => "savings".toList
  | passthrough => "passthrough".toList
  | classes => "classes".toList
  | exceptions => "exceptions".toList

/-- The kind with this name. -/
def ofName? (t : Text) : Option Kind :=
  all.find? fun k => k.name = t

theorem ofName?_name (k : Kind) : ofName? k.name = some k := by
  cases k <;> decide

end Kind

/-- How a summary is written. -/
inductive Format where
  /-- Labelled lines. -/
  | text
  /-- A JSON document. -/
  | json
  deriving DecidableEq, Repr

/-- The format with this name. -/
def Format.ofName? (t : Text) : Option Format :=
  if t = "text".toList then some text else if t = "json".toList then some json else none

end ReportTally
