import ReportTally.Flaw
import ReportTally.Report.Json
import ReportTally.Report.Labelled
import ReportTally.Text.Lines
import ReportTally.Text.Search

/-!
# Savings

A savings trace names one assembly and the processors in it that could do with fewer columns.
Savings groups the assemblies of many traces by processor. A processor that was compiled into
several assemblies by hand is redundant in all but one of them; assemblies of generated code, known
by the end of their name, do not count.

The groups stand in the order of their names, and the assemblies of a group in the order of the
traces.
-/

namespace ReportTally.Savings

/-! ## One trace -/

/-- What comes before the name of the assembly. -/
def assemblyMarker : Text := "Analyzing assembly:".toList

/-- How the line of a processor starts. -/
def processorMarker : Text := "SAVINGS".toList

/-- The assembly that a line names, up to an equals sign. -/
def assembly? (line : Text) : Option Text :=
  (Text.cutAt? assemblyMarker line).map fun (_, rest) =>
    Text.trim (Text.before '=' (Text.trim rest))

/-- The processor that a line names, up to a colon. A line that names an assembly names no
processor. -/
def processor? (line : Text) : Option Text :=
  if Text.occurs assemblyMarker line then none
  else (Text.dropLead? processorMarker (Text.trim line)).map fun rest =>
    Text.trim (Text.before ':' (Text.trim rest))

/-- What one trace says. -/
structure Trace where
  /-- The assembly named last. -/
  assembly : Option Text
  /-- The processors, each at its first place. -/
  processors : List Text
  deriving DecidableEq, Repr

/-- One line more. An assembly takes the place of an earlier one, and a processor is added unless it
is there. -/
def Trace.feedLine (tr : Trace) (line : Text) : Trace :=
  match assembly? line, processor? line with
  | some a, _ => { tr with assembly := some a }
  | none, some p =>
    if p ∈ tr.processors then tr else { tr with processors := tr.processors ++ [p] }
  | none, none => tr

/-- Reads a trace. Savings without an assembly are a flaw, which only the end of the trace shows. -/
def Trace.ofText (t : Text) : Except Flaw Trace :=
  let tr := (Text.lines t).foldl feedLine ⟨none, []⟩
  match tr.assembly, tr.processors with
  | none, p :: _ => .error (.noAssembly p)
  | _, _ => .ok tr

/-! ## Groups -/

/-- A processor and the assemblies that report savings for it. -/
structure Group where
  /-- The processor. -/
  processor : Text
  /-- Its assemblies, one for each trace. -/
  assemblies : List Text
  deriving DecidableEq, Repr

/-- One assembly more for a processor, in groups that are sorted by processor. -/
def insert (processor assembly : Text) : List Group → List Group
  | [] => [⟨processor, [assembly]⟩]
  | g :: gs =>
    if g.processor = processor then ⟨processor, g.assemblies ++ [assembly]⟩ :: gs
    else if Text.le processor g.processor then ⟨processor, [assembly]⟩ :: g :: gs
    else g :: insert processor assembly gs

/-- The traces so far. -/
structure Tally where
  /-- All traces. -/
  files : Nat := 0
  /-- The groups, sorted by processor. -/
  groups : List Group := []

/-- One trace more. -/
def Tally.add (t : Tally) (trace : Trace) : Tally :=
  match trace.assembly with
  | none => { t with files := t.files + 1 }
  | some assembly =>
    { files := t.files + 1
      groups := trace.processors.foldl (fun gs p => insert p assembly gs) t.groups }

/-- How many assemblies of a group could be spared: all but one of those that are different and
not generated. -/
def redundant (generatedSuffix : Text) (assemblies : List Text) : Nat :=
  (((assemblies.map Text.trim).filter (!generatedSuffix.isSuffixOf ·)).eraseDups).length - 1

/-! ## Summaries -/

/-- A group with its number of redundant assemblies. -/
structure Entry where
  /-- The processor. -/
  processor : Text
  /-- Its assemblies. -/
  assemblies : List Text
  /-- How many of them could be spared. -/
  redundant : Nat
  deriving DecidableEq, Repr

/-- What is reported about a folder of savings traces. -/
structure Summary where
  /-- The folder. -/
  folder : Text
  /-- All traces. -/
  files : Nat
  /-- The groups. -/
  processors : List Entry
  /-- The sum of the redundant assemblies. -/
  redundant : Nat
  deriving DecidableEq, Repr

/-- The summary of the traces so far. -/
def Tally.finish (t : Tally) (folder generatedSuffix : Text) : Summary :=
  let entries := t.groups.map fun g =>
    ⟨g.processor, g.assemblies, Savings.redundant generatedSuffix g.assemblies⟩
  ⟨folder, t.files, entries, (entries.map Entry.redundant).foldr (· + ·) 0⟩

/-- The lines of a group: the processor, and its assemblies after tabs. -/
def Entry.text (e : Entry) : Text :=
  e.processor ++ '\n' :: e.assemblies.flatMap fun a => '\t' :: (a ++ ['\n'])

/-- The group as a value. -/
def Entry.json (e : Entry) : Json :=
  .record
    [("processor".toList, .text e.processor),
      ("assemblies".toList, .list (e.assemblies.map .text)),
      ("redundant".toList, .integer e.redundant)]

namespace Summary

open Labelled in
/-- The lines of a summary. A blank line ends the groups, if there are any. -/
def text (s : Summary) : Text :=
  [line "Analyzing folder" s.folder,
    count "Assembly traces" s.files,
    ['\n'],
    s.processors.flatMap Entry.text,
    if s.processors.isEmpty then [] else ['\n'],
    count "Potential redundant processors" s.redundant].flatten

/-- The summary as a document. -/
def json (s : Summary) : Json :=
  .record
    [("folder".toList, .text s.folder),
      ("files".toList, .integer s.files),
      ("processors".toList, .list (s.processors.map Entry.json)),
      ("redundant".toList, .integer s.redundant)]

end Summary

end ReportTally.Savings
