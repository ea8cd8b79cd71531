import ReportTally.Report.Json
import ReportTally.Report.Labelled
import ReportTally.Text.Lines
import ReportTally.Text.Search

/-!
# Exceptions in logs

A log throws an exception on the first line that says so. What is reported is the file and some of
the lines that follow; later exceptions are such lines like any other.
-/

namespace ReportTally.Exceptions

/-- What the line of an exception contains. -/
def marker : Text := "Throw exception".toList

/-- The first `contextLines` lines after the first exception, if there is one. -/
def context? (contextLines : Nat) (t : Text) : Option (List Text) :=
  match (Text.lines t).dropWhile (!Text.occurs marker ·) with
  | [] => none
  | _ :: rest => some (rest.take contextLines)

/-- A log with an exception. -/
structure Site where
  /-- The file. -/
  file : Text
  /-- The lines after the exception. -/
  context : List Text
  deriving DecidableEq, Repr

/-- What is reported about a folder of logs. -/
structure Summary where
  /-- The folder. -/
  folder : Text := []
  /-- All logs. -/
  files : Nat := 0
  /-- The logs with an exception. -/
  sites : List Site := []

namespace Summary

/-- One log more. -/
def add (s : Summary) (file : Text) (context : Option (List Text)) : Summary :=
  { s with
    files := s.files + 1
    sites := match context with
      | none => s.sites
      | some lines => s.sites ++ [⟨file, lines⟩] }

/-- The lines of a site: the file, the lines after the exception, and a rule. -/
def siteText (site : Site) : Text :=
  site.file ++ '\n' :: (site.context.flatMap (· ++ ['\n'])) ++ "------\n".toList

open Labelled in
/-- The lines of a summary. -/
def text (s : Summary) : Text :=
  [line "Analyzing folder" s.folder,
    count "Log files" s.files,
    ['\n'],
    s.sites.flatMap siteText,
    count "Files with exceptions" s.sites.length].flatten

/-- The site as a value. -/
def siteJson (site : Site) : Json :=
  .record
    [("file".toList, .text site.file), ("context".toList, .list (site.context.map .text))]

/-- The summary as a document. -/
def json (s : Summary) : Json :=
  .record
    [("folder".toList, .text s.folder),
      ("files".toList, .integer s.files),
      ("sites".toList, .list (s.sites.map siteJson))]

end Summary

end ReportTally.Exceptions
