import ReportTally.Report.Json
import ReportTally.Report.Labelled
import ReportTally.Text.Lines
import ReportTally.Text.Search

/-!
# Classes in result files

A result file names every analyzed method on a line with an `id` member. A line counts as a class
if it names a `Process` method, is neither a summary nor about a single column, and contains no
name of generated code.
-/

namespace ReportTally.Classes

/-- Does a line name the class of a processor? -/
def isClass (generatedNames : List Text) (line : Text) : Bool :=
  Text.occurs "\"id\"".toList line &&
    !Text.occurs "\"id\": \"Summary\"".toList line &&
    !Text.occurs "\"SingleColumn\"".toList line &&
    !(generatedNames.any fun g => Text.occurs g line) &&
    Text.occurs "|Process".toList line

/-- The number of classes in a result file. -/
def ofText (generatedNames : List Text) (t : Text) : Nat :=
  (Text.lines t).countP (isClass generatedNames)

/-- What is reported about a folder of result files. -/
structure Summary where
  /-- The folder. -/
  folder : Text := []
  /-- All files. -/
  files : Nat := 0
  /-- The sum of the numbers of classes. -/
  classes : Nat := 0

namespace Summary

/-- One file more, with this number of classes. -/
def add (s : Summary) (classes : Nat) : Summary :=
  { s with files := s.files + 1, classes := s.classes + classes }

open Labelled in
/-- The labelled lines of a summary. -/
def text (s : Summary) : Text :=
  [line "Analyzing folder" s.folder,
    count "Total files" s.files,
    count "Total classes" s.classes].flatten

/-- The summary as a document. -/
def json (s : Summary) : Json :=
  .record
    [("folder".toList, .text s.folder),
      ("files".toList, .integer s.files),
      ("classes".toList, .integer s.classes)]

end Summary

end ReportTally.Classes
