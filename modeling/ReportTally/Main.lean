import ReportTally.CommandLine.Run

/-!
# The program

The file system as a `Volume`, and a run of the words that the program is called with.
-/

namespace ReportTally.Program

/-- The fault with an error number, which may be given as its negative. -/
def faultOfCode? (code : UInt32) : Option Fault :=
  match if code < 0x80000000 then code else 0 - code with
  | 20 => some .notFolder
  | 21 => some .isFolder
  | 22 => some .nullCharacter
  | 36 => some .nameTooLong
  | 40 => some .tooManyLinks
  | _ => none

/-- The fault of a failed operation. -/
def fault (e : IO.Error) : Fault :=
  let known : Option Fault := match e with
    | .noFileOrDirectory .. => some .notFound
    | .inappropriateType _ code _ => faultOfCode? code
    | .invalidArgument _ code _ => faultOfCode? code
    | _ => none
  known.getD (.other e.toString.toList)

/-- The result of an operation that may fail. -/
def attempt {α : Type} (act : IO α) : IO (Except Fault α) := do
  match ← act.toBaseIO with
  | .ok a => return .ok a
  | .error e => return .error (fault e)

/-- The path of a text. -/
def path (t : Text) : String :=
  String.ofList t

/-- What stands at a path. -/
def status (t : Text) : IO Status := do
  let data ← (← IO.FS.realPath (path t)).metadata
  match data.type with
  | .dir => return .folder
  | .file => return .file data.byteSize.toNat
  | _ => return .special

/-- The file system. -/
def volume : Volume IO where
  status t := attempt (status t)
  resolve t := attempt do return (← IO.FS.realPath (path t)).toString.toList
  names t := attempt do
    let entries ← (← IO.FS.realPath (path t)).readDir
    return entries.toList.map fun entry => entry.fileName.toList
  read t := attempt do return (← IO.FS.readBinFile (path t)).toList
  write t contents := attempt (IO.FS.writeBinFile (path t) ⟨contents.toArray⟩)

end ReportTally.Program

open ReportTally in
/-- Runs the program. -/
def main (words : List String) : IO UInt32 := do
  let env ← IO.getEnv "SCOPESTATS_CONFIG"
  let outcome ← run Program.volume (env.map String.toList) (words.map String.toList)
  IO.print (String.ofList outcome.output)
  IO.eprint (String.ofList outcome.errors)
  return outcome.code
