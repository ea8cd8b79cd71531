import ReportTally.Folder.Volume
import ReportTally.Report.Kind
import ReportTally.Settings

/-!
# Arguments

What a command line asks for, once it has been read. Some requests are refused although they can be
read: `Arguments.refusal?` gives the reason, of several the first.

`Settings.merge` lets the arguments override the settings of the command that is run.
-/

namespace ReportTally

/-- A command summarizes the reports of one kind in a folder. -/
structure Command where
  /-- The kind. -/
  kind : Kind
  /-- The path of the folder. -/
  folder : Text
  /-- How many lines are reported after an exception, if it is said. It counts for exceptions
  only. -/
  contextLines : Option Nat := none
  deriving DecidableEq, Repr

/-- What a command line asks for. -/
structure Arguments where
  /-- The command. -/
  command : Option Command := none
  /-- The path of a file with settings. -/
  config : Option Text := none
  /-- Is more to be logged? -/
  verbose : Bool := false
  /-- Is less to be logged? -/
  quiet : Bool := false
  /-- How the summary is written. -/
  format : Format := .text
  /-- How the names of reports end. -/
  extension : Option Text := none
  /-- Is the starter document to be written, instead of anything else? -/
  initConfig : Bool := false
  deriving DecidableEq, Repr

/-- What is logged. -/
inductive LogLevel where
  /-- Errors only. -/
  | error
  /-- What happens. -/
  | info
  /-- Everything. -/
  | debug
  deriving DecidableEq, Repr

/-- The level that the arguments choose. Less goes before more. -/
def Arguments.logLevel (a : Arguments) : LogLevel :=
  if a.quiet then .error else if a.verbose then .debug else .info

/-! ## Refusals -/

/-- Why a request is refused. -/
inductive Refusal where
  /-- There is no command. -/
  | noCommand
  /-- More and less is to be logged. -/
  | verboseAndQuiet
  /-- Every name ends with an empty text. -/
  | emptyExtension
  /-- The folder is missing. -/
  | noFolder (path : Text)
  /-- The path leads to something else. -/
  | notFolder (path : Text)
  deriving DecidableEq, Repr

/-- What is reported about a refusal. -/
def Refusal.message : Refusal → Text
  | noCommand => "A subcommand is required".toList
  | verboseAndQuiet => "Cannot use both --verbose and --quiet".toList
  | emptyExtension => "Extension must not be empty".toList
  | noFolder path => "Directory does not exist: ".toList ++ path
  | notFolder path => "Path is not a directory: ".toList ++ path

namespace Arguments

/-- Why a command is refused whatever its folder is. -/
def conflict? (a : Arguments) : Option Refusal :=
  if a.verbose && a.quiet then some .verboseAndQuiet
  else if a.extension = some [] then some .emptyExtension
  else none

/-- Why the folder of a command is refused. -/
def folderRefusal? (path : Text) : Except Fault Status → Option Refusal
  | .ok .folder => none
  | .ok _ => some (.notFolder path)
  | .error _ => some (.noFolder path)

/-- Why the arguments are refused, if they are. A request for the starter document never is. -/
def refusal? {m : Type → Type} [Monad m] (v : Volume m) (a : Arguments) : m (Option Refusal) := do
  if a.initConfig then return none
  match a.command, a.conflict? with
  | none, _ => return some .noCommand
  | some _, some r => return some r
  | some c, none => return folderRefusal? c.folder (← v.status c.folder)

end Arguments

/-! ## Settings of a run -/

/-- The settings with what the arguments say about the command. -/
def Settings.merge (s : Settings) (a : Arguments) : Settings :=
  match a.command with
  | none => s
  | some c =>
    { s with
      extension := fun k => if k = c.kind then a.extension.getD (s.extension k) else s.extension k
      contextLines :=
        if c.kind = .exceptions then c.contextLines.getD s.contextLines else s.contextLines }

end ReportTally
