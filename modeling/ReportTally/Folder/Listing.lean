import ReportTally.Folder.Volume

/-!
# Report files of a folder

The reports of a folder are the files directly in it whose names end with a suffix, in the order
of their names. A link to a file is a file; folders, devices, and links that lead nowhere, are
passed over. Where a path leads to a file instead of a folder there are no reports.
-/

namespace ReportTally

/-- A report on a volume. -/
structure ReportFile where
  /-- Its name in the folder. -/
  name : Text
  /-- Its path. -/
  path : Text
  /-- Its size in bytes. -/
  size : Nat
  deriving DecidableEq, Repr

namespace ReportFile

/-- Does a name end with the suffix? Case counts. -/
def matches_ (suffix name : Text) : Bool :=
  suffix.isSuffixOf name

variable {m : Type → Type} [Monad m]

/-- The report of this name, if it is a file. -/
def find? (v : Volume m) (folder name : Text) : m (Option ReportFile) := do
  let path := Path.join folder name
  match ← v.status path with
  | .ok (.file size) => return some ⟨name, path, size⟩
  | _ => return none

/-- The reports of these names that are files. -/
def findAll (v : Volume m) (folder : Text) : List Text → m (List ReportFile)
  | [] => return []
  | name :: names => do
    let file ← find? v folder name
    let files ← findAll v folder names
    return file.toList ++ files

/-- The reports of a folder. -/
def list (v : Volume m) (folder suffix : Text) : m (Except Fault (List ReportFile)) := do
  match ← v.status folder with
  | .error fault => return .error fault
  | .ok .folder =>
    match ← v.names folder with
    | .error fault => return .error fault
    | .ok names =>
      let files ← findAll v folder ((names.filter (matches_ suffix)).mergeSort Text.le)
      return .ok files
  | .ok _ => return .ok []

/-- The text of a report. What is not UTF-8 in it is replaced. -/
def contents (v : Volume m) (file : ReportFile) : m (Except Fault Text) := do
  let bytes ← v.read file.path
  return bytes.map Utf8.decode

end ReportFile

end ReportTally
