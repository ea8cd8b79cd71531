import ReportTally.CommandLine.Reading
import ReportTally.Folder.Report

/-!
# Runs

A run reads a command line and does what it asks for: it writes a starter document with settings, or
summarizes the reports of a folder. A run ends with an `Outcome`, and a run that fails says why and
puts out nothing else.

`run` works on any `Volume`. The only file that it ever writes is the starter document, where there
is none yet.
-/

namespace ReportTally

/-- How a run ends. -/
structure Outcome where
  /-- The exit code: zero unless something failed, and two if the command line makes no sense. -/
  code : UInt32
  /-- What is put out. -/
  output : Text := []
  /-- What is reported besides. -/
  errors : Text := []
  deriving DecidableEq, Repr

/-- Why a run fails. -/
inductive Failure where
  /-- The request is refused. -/
  | refused (r : Refusal)
  /-- There is a file in place of the starter document. -/
  | starterExists
  /-- The starter document cannot be written. -/
  | starterUnwritable (fault : Fault)
  /-- The settings cannot be loaded. -/
  | settings (f : Settings.Failure)
  /-- The folder has no path. -/
  | unresolved (folder : Text) (fault : Fault)
  /-- The folder has no summary. -/
  | notSummarized (f : Folder.Failure)
  deriving DecidableEq, Repr

/-- The path of the file with settings that needs no mention. -/
def settingsPath : Text :=
  ".scopestats.toml".toList

/-- What is reported about a failure. -/
def Failure.message : Failure → Text
  | refused r => r.message
  | starterExists =>
    settingsPath ++ " already exists. Remove it first or edit it manually.".toList
  | starterUnwritable fault =>
    "Failed to write ".toList ++ settingsPath ++ ": ".toList ++ fault.message
  | settings f => f.message
  | unresolved folder fault =>
    "Failed to resolve ".toList ++ folder ++ ": ".toList ++ fault.message
  | notSummarized f => f.message

namespace Outcome

/-- A run that puts something out. -/
def ofOutput (t : Text) : Outcome :=
  { code := 0, output := t }

/-- A run that fails. -/
def ofFailure (f : Failure) : Outcome :=
  { code := 1, errors := "Error: ".toList ++ f.message ++ ['\n'] }

/-- The outcome of something that puts a text out or fails. -/
def ofExcept : Except Failure Text → Outcome
  | .ok t => ofOutput t
  | .error f => ofFailure f

end Outcome

/-! ## Help -/

/-- The name of the program, with a command or without. -/
def programName : Option Kind → Text
  | none => "scopestats".toList
  | some kind => "scopestats-".toList ++ kind.name

/-- How the program or a command is used. -/
def usage : Option Kind → Text
  | none => "Usage: scopestats [OPTIONS] [COMMAND]\n".toList
  | some kind => "Usage: scopestats ".toList ++ kind.name ++ " [OPTIONS] <DIR>\n".toList

/-- The options of a level, one on a line. -/
def optionLines (scope : Option Kind) : Text :=
  (CommandLine.options scope).flatMap fun o => "  --".toList ++ o.long ++ ['\n']

/-- What is said to someone who asks for help. -/
def help (about : Option Kind) : Text :=
  usage about ++
    (if about.isNone then
      "\nCommands:\n".toList ++ Kind.all.flatMap fun k => "  ".toList ++ k.name ++ ['\n']
    else []) ++
    "\nOptions:\n".toList ++ optionLines about

/-- The outcome when reading the command line has stopped. -/
def Stop.outcome : Stop → Outcome
  | help about => .ofOutput (ReportTally.help about)
  | version about => .ofOutput (programName about ++ " 1.0.0\n".toList)
  | usage =>
    { code := 2, errors := "error: invalid arguments\n\n".toList ++ ReportTally.usage none }

/-! ## What a run does -/

variable {m : Type → Type} [Monad m]

/-- Is there something at a path? -/
def hasItem (v : Volume m) (path : Text) : m Bool := do
  match ← v.status path with
  | .ok _ => return true
  | .error _ => return false

/-- Writes the starter document, unless there is a file in its place. -/
def writeStarter (v : Volume m) : m (Except Failure Text) := do
  if ← hasItem v settingsPath then return .error .starterExists
  match ← v.write settingsPath (Utf8.encode Settings.starter) with
  | .error fault => return .error (.starterUnwritable fault)
  | .ok _ =>
    return .ok ("Created ".toList ++ settingsPath ++ " with default settings.\n".toList)

/-- The settings where none are named: those of the file that needs no mention, if it is there and
can be loaded. -/
def standingSettings (v : Volume m) : m Settings := do
  if ← hasItem v settingsPath then
    match ← Settings.load v settingsPath with
    | .ok s => return s
    | .error _ => return .default
  else return .default

/-- The settings of a run, before the arguments override some of them. A file that is named has to
be loaded. -/
def loadSettings (v : Volume m) (a : Arguments) : m (Except Settings.Failure Settings) := do
  match a.config with
  | some path => Settings.load v path
  | none => return .ok (← standingSettings v)

/-- Carries out a command. -/
def carryOut (v : Volume m) (a : Arguments) (c : Command) : m (Except Failure Text) := do
  match ← loadSettings v a with
  | .error f => return .error (.settings f)
  | .ok settings =>
    let settings := settings.merge a
    match ← v.resolve c.folder with
    | .error fault => return .error (.unresolved c.folder fault)
    | .ok folder =>
      match ← Folder.summarize v settings.toRules c.kind (settings.extension c.kind) folder with
      | .error f => return .error (.notSummarized f)
      | .ok summary => return .ok (summary.render a.format)

/-- Does what the arguments ask for. -/
def perform (v : Volume m) (a : Arguments) : m (Except Failure Text) := do
  match ← a.refusal? v with
  | some r => return .error (.refused r)
  | none =>
    if a.initConfig then writeStarter v
    else match a.command with
      | none => return .error (.refused .noCommand)
      | some c => carryOut v a c

/-- Runs a command line, with the value that the environment has for the file with settings. -/
def run (v : Volume m) (env : Option Text) (words : List Text) : m Outcome := do
  match CommandLine.read env words with
  | .error stop => return stop.outcome
  | .ok a => return .ofExcept (← perform v a)

end ReportTally
