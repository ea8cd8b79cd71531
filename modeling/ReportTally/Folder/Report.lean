import ReportTally.Folder.Listing
import ReportTally.Report.Summary

/-!
# Reports of a folder

`Folder.summarize` lists the reports of a folder, then reads and feeds one after another. It stops
at the first one that cannot be read or has a flaw; then there is no summary at all.
-/

namespace ReportTally.Folder

/-- Why a folder has no summary. -/
inductive Failure where
  /-- The folder cannot be listed. -/
  | unlisted (folder : Text) (fault : Fault)
  /-- A report cannot be read. -/
  | unreadable (path : Text) (fault : Fault)
  /-- A report has a flaw. -/
  | flawed (path : Text) (flaw : Flaw)
  deriving DecidableEq, Repr

/-- What is reported about a failure. -/
def Failure.message : Failure → Text
  | unlisted folder fault =>
    "Failed to list ".toList ++ folder ++ ": IO error for operation on ".toList ++ folder ++
      ": ".toList ++ fault.message ++ ": ".toList ++ fault.message
  | unreadable path fault =>
    "Failed to read ".toList ++ path ++ ": ".toList ++ fault.message
  | flawed path flaw =>
    "Failed to parse ".toList ++ path ++ ": ".toList ++ flaw.message

variable {m : Type → Type} [Monad m]

/-- Reads and feeds reports in order. -/
def feed (v : Volume m) (rules : Rules) (t : Tally) :
    List ReportFile → m (Except Failure Tally)
  | [] => return .ok t
  | file :: files => do
    match ← file.contents v with
    | .error fault => return .error (.unreadable file.path fault)
    | .ok contents =>
      match t.feed rules file.name contents with
      | .error flaw => return .error (.flawed file.path flaw)
      | .ok t => feed v rules t files

/-- The summary of the reports of a kind in a folder. -/
def summarize (v : Volume m) (rules : Rules) (kind : Kind) (suffix folder : Text) :
    m (Except Failure Summary) := do
  match ← ReportFile.list v folder suffix with
  | .error fault => return .error (.unlisted folder fault)
  | .ok files =>
    match ← feed v rules (.start kind) files with
    | .error failure => return .error failure
    | .ok t => return .ok (t.finish rules folder)

end ReportTally.Folder
