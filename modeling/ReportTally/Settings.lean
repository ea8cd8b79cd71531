import ReportTally.Folder.Volume
import ReportTally.Report.Summary
import ReportTally.Toml.Document

/-!
# Settings

Settings say which files are the reports of a kind, and by which rules they are summarized. They
are read from a TOML document with four sections. A section that the document does not have is as in
`Settings.default`, and a key that a section does not mention has its default (`Settings.entry`,
`Settings.readSection?`). Unknown sections and keys are passed over.

`Settings.starter` is a document that mentions every setting with its default.
-/

namespace ReportTally

/-- What a run can be told about reports. -/
structure Settings extends Rules where
  /-- How the names of the reports of a kind end. -/
  extension : Kind → Text

namespace Settings

/-! ## Defaults

A key has a default, for sections that do not mention it. A section has one too, for documents that
do not have it. They are made of the same values, but each is written down for itself. -/

/-- The ending of plain texts. -/
def plainExtension : Text :=
  ".txt".toList

/-- The ending of passthrough reports. -/
def passthroughExtension : Text :=
  ".passthrough".toList

/-- The ending of results that name classes. -/
def resultsExtension : Text :=
  ".sarif".toList

/-- The ending of logs. -/
def logExtension : Text :=
  ".log".toList

/-- How the names of the reports of a kind end, if a section does not mention it. -/
def usualExtension : Kind → Text
  | .traces | .mappings | .savings => plainExtension
  | .passthrough => passthroughExtension
  | .classes => resultsExtension
  | .exceptions => logExtension

/-- How the names of generated assemblies end, if a section does not mention it. -/
def usualSuffix : Text :=
  "__ScopeCodeGen__.dll".toList

/-- What the names of generated classes contain, if a section does not mention it. -/
def usualNames : List Text :=
  ["ScopeFilterTransformer_".toList,
    "ScopeTransformer_".toList,
    "ScopeGrouper_".toList,
    "ScopeProcessorCrossApplyExpressionWrapper".toList,
    "ScopeReducer_".toList,
    "ScopeRuntime.".toList]

/-- How many lines are reported after an exception, if a section does not mention it. -/
def usualLines : Nat := 5

/-- The settings without a document. A section that a document does not have is as in them. -/
def default : Settings where
  generatedSuffix := usualSuffix
  generatedNames := usualNames
  contextLines := usualLines
  extension
    | .traces => plainExtension
    | .mappings => plainExtension
    | .savings => plainExtension
    | .passthrough => passthroughExtension
    | .classes => resultsExtension
    | .exceptions => logExtension

/-! ## Reading values -/

/-- A setting that is a text. -/
def text? : Toml.Value → Option Text
  | .text t => some t
  | _ => none

/-- A setting that is a list of texts. -/
def texts? : Toml.Value → Option (List Text)
  | .array items => items.mapM text?
  | _ => none

/-- A setting that is a count. -/
def count? : Toml.Value → Option Nat
  | .integer n => if 0 ≤ n then some n.toNat else none
  | _ => none

/-- What a section says about a setting, which has a key and a position. -/
abbrev Entries := Nat → Text → Option Toml.Value

/-- A section says nothing. -/
def noEntries : Entries :=
  fun _ _ => none

/-- The entries of a section. A table lists them by their keys and an array by their positions. A
date says nothing. -/
def entries? : Toml.Value → Option Entries
  | .moment => some noEntries
  | .table _ members => some fun _ key => Toml.Members.find? members key
  | .array items | .tables items => some fun position _ => items[position]?
  | _ => none

/-- A setting: what its entry says, or else its default. -/
def entry {α : Type} (read : Toml.Value → Option α) (default : α) : Option Toml.Value → Option α
  | none => some default
  | some v => read v

/-! ## Reading documents -/

/-- The key of the extension of a kind. -/
def extensionKey (k : Kind) : Text :=
  k.name ++ "_extension".toList

/-- A value for every kind, if each kind has one. -/
def forEach? {α : Type} (f : Kind → Option α) : Option (Kind → α) := do
  let traces ← f .traces
  let mappings ← f .mappings
  let savings ← f .savings
  let passthrough ← f .passthrough
  let classes ← f .classes
  let exceptions ← f .exceptions
  return fun
    | .traces => traces
    | .mappings => mappings
    | .savings => savings
    | .passthrough => passthrough
    | .classes => classes
    | .exceptions => exceptions

/-- A section: what is read of its entries, or else its default if the document does not have it. -/
def readSection? {α : Type} (read : Entries → Option α) (default : α) :
    Option Toml.Value → Option α
  | none => some default
  | some v => do read (← entries? v)

/-- The extensions of all kinds in a section. -/
def extensions? (entries : Entries) : Option (Kind → Text) :=
  forEach? fun k => entry text? (usualExtension k) (entries k.ctorIdx (extensionKey k))

/-- The ending of generated assemblies in a section. -/
def suffix? (entries : Entries) : Option Text :=
  entry text? usualSuffix (entries 0 "generated_suffix".toList)

/-- The names of generated classes in a section. -/
def names? (entries : Entries) : Option (List Text) :=
  entry texts? usualNames (entries 0 "generated_prefixes".toList)

/-- The number of lines in a section. -/
def lines? (entries : Entries) : Option Nat :=
  entry count? usualLines (entries 0 "context_lines".toList)

/-- The settings of a document with these members. -/
def ofMembers? (ms : Toml.Members) : Option Settings := do
  let extension ← readSection? extensions? default.extension (ms.find? "scan".toList)
  let generatedSuffix ← readSection? suffix? default.generatedSuffix (ms.find? "savings".toList)
  let generatedNames ← readSection? names? default.generatedNames (ms.find? "filters".toList)
  let contextLines ← readSection? lines? default.contextLines (ms.find? "exceptions".toList)
  return { generatedSuffix, generatedNames, contextLines, extension }

/-- The settings of a document. -/
def ofText? (t : Text) : Option Settings := do
  ofMembers? (← Toml.read? t)

/-! ## The starter document -/

/-- A line with the value of a key. -/
def keyLine (key value : Text) : Text :=
  key ++ " = ".toList ++ value ++ ['\n']

/-- A text in double quotes. It is meant for texts of which no character has to be escaped, such
as the defaults. -/
def inQuotes (t : Text) : Text :=
  '"' :: (t ++ ['"'])

/-- A document with every setting at its default. -/
def starter : Text :=
  ["[scan]\n".toList,
    Kind.all.flatMap fun k => keyLine (extensionKey k) (inQuotes (default.extension k)),
    "\n[savings]\n".toList,
    keyLine "generated_suffix".toList (inQuotes default.generatedSuffix),
    "\n[filters]\ngenerated_prefixes = [\n".toList,
    default.generatedNames.flatMap fun t => "    ".toList ++ inQuotes t ++ ",\n".toList,
    "]\n\n[exceptions]\n".toList,
    keyLine "context_lines".toList (Numeral.ofNat default.contextLines)].flatten

/-! ## Files -/

/-- Why a file gives no settings. -/
inductive Failure where
  /-- The file cannot be read. -/
  | unreadable (path : Text) (fault : Fault)
  /-- The file is not UTF-8. -/
  | notText (path : Text)
  /-- The file is no document, or a setting has a value of another kind. -/
  | malformed (path : Text)
  deriving DecidableEq, Repr

namespace Failure

/-- What has failed. -/
def headline : Failure → Text
  | unreadable path _ | notText path => "Failed to read config file: ".toList ++ path
  | malformed path => "Failed to parse config file: ".toList ++ path

/-- What has failed, and why. -/
def message : Failure → Text
  | f@(unreadable _ fault) => f.headline ++ ": ".toList ++ fault.message
  | f@(notText _) => f.headline ++ ": stream did not contain valid UTF-8".toList
  | f@(malformed _) => f.headline

end Failure

/-- The settings in the bytes of a file. -/
def ofBytes (path : Text) (bytes : Bytes) : Except Failure Settings :=
  match Utf8.decodeStrict? bytes with
  | none => .error (.notText path)
  | some t =>
    match ofText? t with
    | none => .error (.malformed path)
    | some s => .ok s

/-- The settings in a file. -/
def load {m : Type → Type} [Monad m] (v : Volume m) (path : Text) :
    m (Except Failure Settings) := do
  match ← v.read path with
  | .error fault => return .error (.unreadable path fault)
  | .ok bytes => return ofBytes path bytes

end Settings

end ReportTally
