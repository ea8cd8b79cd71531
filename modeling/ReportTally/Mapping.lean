import ReportTally.Report.Json
import ReportTally.Report.Labelled
import ReportTally.Text.Lines

/-!
# Mapping files

Each line of a mapping file starts with the name of a processor, up to the first tab. A file says
how many different processors it maps; blank lines say nothing. Files are counted apart: a
processor of two files counts in both.
-/

namespace ReportTally.Mapping

/-- What one file says. -/
structure Contents where
  /-- The number of different processors. -/
  keys : Nat
  /-- Is every line blank? -/
  empty : Bool
  deriving DecidableEq, Repr

/-- The lines that are not blank. -/
def entries (t : Text) : List Text :=
  (Text.lines t).filter fun line => !(Text.trim line).isEmpty

/-- The processor of a line. -/
def key (line : Text) : Text :=
  Text.trim (Text.before '\t' line)

/-- Reads a mapping file. -/
def Contents.ofText (t : Text) : Contents :=
  ⟨((entries t).map key).eraseDups.length, (entries t).isEmpty⟩

/-- What is reported about a folder of mapping files. -/
structure Summary where
  /-- The folder. -/
  folder : Text := []
  /-- All files. -/
  files : Nat := 0
  /-- The sum of the numbers of processors. -/
  keys : Nat := 0
  /-- The files without an entry. -/
  empty : Nat := 0

namespace Summary

/-- One file more. -/
def add (s : Summary) (c : Contents) : Summary :=
  { s with
    files := s.files + 1
    keys := s.keys + c.keys
    empty := s.empty + if c.empty then 1 else 0 }

open Labelled in
/-- The labelled lines of a summary. -/
def text (s : Summary) : Text :=
  [line "Analyzing folder" s.folder,
    count "Mapping files" s.files,
    count "Unique mappings" s.keys,
    count "Empty mapping files" s.empty].flatten

/-- The summary as a document. -/
def json (s : Summary) : Json :=
  .record
    [("folder".toList, .text s.folder),
      ("files".toList, .integer s.files),
      ("unique_mappings".toList, .integer s.keys),
      ("empty_files".toList, .integer s.empty)]

end Summary

end ReportTally.Mapping
