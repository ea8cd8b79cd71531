import ReportTally.CommandLine.Arguments

/-!
# Reading a command line

A command line has two levels: the words before the command and the words after it. Most options may
stand at either, and the level of the command wins (`combine`).

Words are read from left to right. What was read of a level is `Given`. A value in the word of its
option is checked at once, and one in a word of its own stays pending until the next option of its
level comes (`Level.settle`), so that of two mistakes the one that is settled first decides. Reading
stops with a request for help or for the version, or because the words make no sense (`Stop`).
-/

namespace ReportTally

/-- Why reading stops. -/
inductive Stop where
  /-- Help is asked for, about a command or about all. -/
  | help (about : Option Kind)
  /-- The version is asked for, after a command or before it. -/
  | version (about : Option Kind)
  /-- The words make no sense. -/
  | usage
  deriving DecidableEq, Repr

namespace CommandLine

/-! ## Options -/

/-- Options with a value. -/
inductive Valued where
  /-- The file with settings. -/
  | config
  /-- The format of the summary. -/
  | format
  /-- The end of the names of reports. -/
  | extension
  /-- The number of lines after an exception. -/
  | contextLines
  deriving DecidableEq, Repr

/-- Options without a value. -/
inductive Flag where
  /-- Log more. -/
  | verbose
  /-- Log less. -/
  | quiet
  /-- Write the starter document. -/
  | initConfig
  /-- Ask for help. -/
  | help
  /-- Ask for the version. -/
  | version
  deriving DecidableEq, Repr

/-- An option. -/
inductive Choice where
  /-- One with a value. -/
  | valued (s : Valued)
  /-- One without. -/
  | flag (f : Flag)
  deriving DecidableEq, Repr

/-- The names of an option. -/
structure Naming where
  /-- The name after two dashes. -/
  long : Text
  /-- The letter after one dash. -/
  short : Option Char
  /-- The option. -/
  choice : Choice
  deriving DecidableEq, Repr

/-- The options of both levels. -/
def common : List Naming :=
  [⟨"config".toList, some 'c', .valued .config⟩,
    ⟨"verbose".toList, some 'v', .flag .verbose⟩,
    ⟨"quiet".toList, some 'q', .flag .quiet⟩,
    ⟨"format".toList, none, .valued .format⟩,
    ⟨"ext".toList, none, .valued .extension⟩,
    ⟨"help".toList, some 'h', .flag .help⟩,
    ⟨"version".toList, some 'V', .flag .version⟩]

/-- The options of a level: before the command, or after a command of a kind. -/
def options : Option Kind → List Naming
  | none => ⟨"init-config".toList, none, .flag .initConfig⟩ :: common
  | some .exceptions => ⟨"context-lines".toList, none, .valued .contextLines⟩ :: common
  | some _ => common

/-- The option with a name. -/
def long? (scope : Option Kind) (name : Text) : Option Choice :=
  ((options scope).find? (·.long = name)).map Naming.choice

/-- The option with a letter. -/
def short? (scope : Option Kind) (c : Char) : Option Choice :=
  ((options scope).find? (·.short = some c)).map Naming.choice

/-! ## What a level gives -/

/-- What was read of one level. Nothing may be given twice. -/
structure Given where
  /-- The file with settings. -/
  config : Option Text := none
  /-- The format. -/
  format : Option Format := none
  /-- The end of the names. -/
  extension : Option Text := none
  /-- The number of lines after an exception. -/
  contextLines : Option Nat := none
  /-- The folder. -/
  folder : Option Text := none
  /-- Log more? -/
  verbose : Bool := false
  /-- Log less? -/
  quiet : Bool := false
  /-- Write the starter document? -/
  initConfig : Bool := false
  deriving DecidableEq, Repr

/-- A value for something that has none yet. -/
def once {α : Type} (old new : Option α) : Except Stop (Option α) :=
  match old, new with
  | none, some x => .ok (some x)
  | _, _ => .error .usage

/-- A text that is not empty. -/
def path? (t : Text) : Option Text :=
  if t.isEmpty then none else some t

namespace Given

/-- One option with its value. -/
def set (g : Given) (value : Text) : Valued → Except Stop Given
  | .config => return { g with config := ← once g.config (path? value) }
  | .format => return { g with format := ← once g.format (Format.ofName? value) }
  | .extension => return { g with extension := ← once g.extension (some value) }
  | .contextLines => return { g with contextLines := ← once g.contextLines (Numeral.word? value) }

/-- One option without a value. -/
def raise (scope : Option Kind) (g : Given) : Flag → Except Stop Given
  | .verbose => if g.verbose then .error .usage else .ok { g with verbose := true }
  | .quiet => if g.quiet then .error .usage else .ok { g with quiet := true }
  | .initConfig => if g.initConfig then .error .usage else .ok { g with initConfig := true }
  | .help => .error (.help scope)
  | .version => .error (.version scope)

/-- The folder, which only a command has. -/
def setFolder (scope : Option Kind) (g : Given) (path : Text) : Except Stop Given :=
  match scope with
  | none => .error .usage
  | some _ => return { g with folder := ← once g.folder (path? path) }

end Given

/-! ## One level -/

/-- What was read last. -/
inductive Pending where
  /-- Nothing that has to be remembered. -/
  | nothing
  /-- An option whose value is the next word. -/
  | needs (s : Valued)
  /-- An option and its value, which was a word of its own. -/
  | has (s : Valued) (value : Text)
  deriving DecidableEq, Repr

/-- A level on the way. -/
structure Level where
  /-- What is settled. -/
  given : Given := {}
  /-- What is not. -/
  pending : Pending := .nothing
  /-- Have two dashes alone ended the options? -/
  plain : Bool := false
  deriving DecidableEq, Repr

namespace Level

/-- What the level gives if nothing follows. -/
def settle (l : Level) : Except Stop Given :=
  match l.pending with
  | .nothing => .ok l.given
  | .needs _ => .error .usage
  | .has s value => l.given.set value s

/-- A level without anything pending. -/
def settled (l : Level) (g : Given) : Level :=
  { l with given := g, pending := .nothing }

/-- An option without a value. -/
def flag (scope : Option Kind) (l : Level) (f : Flag) : Except Stop Level :=
  return l.settled (← (← l.settle).raise scope f)

/-- An option with a value in the same word, or in the next one. -/
def valued (l : Level) (s : Valued) (value : Option Text) : Except Stop Level := do
  let g ← l.settle
  match value with
  | some v => return l.settled (← g.set v s)
  | none => return { l.settled g with pending := .needs s }

/-- A word that starts with two dashes: a name, and a value after an equals sign. -/
def longWord (scope : Option Kind) (l : Level) (t : Text) : Except Stop Level :=
  match long? scope (Text.before '=' t), Text.after? '=' t with
  | some (.valued s), value => l.valued s value
  | some (.flag f), none => l.flag scope f
  | _, _ => .error .usage

/-- The value that follows a letter in its word. It may come after an equals sign. -/
def attached? : Text → Option Text
  | [] => none
  | '=' :: t => some t
  | t => some t

/-- The letters of a word that starts with one dash. What follows the letter of an option with a
value is the value. -/
def shortWord (scope : Option Kind) (l : Level) : Text → Except Stop Level
  | [] => .ok l
  | c :: t =>
    match short? scope c with
    | some (.valued s) => l.valued s (attached? t)
    | some (.flag f) => do shortWord scope (← l.flag scope f) t
    | none => .error .usage

/-- A word that is no option: the value that the last option needs, or else the folder. -/
def plainWord (scope : Option Kind) (l : Level) (t : Text) : Except Stop Level :=
  match l.pending with
  | .needs s => .ok { l with pending := .has s t }
  | _ => return l.settled (← (← l.settle).setFolder scope t)

/-- One word more. -/
def word (scope : Option Kind) (l : Level) (t : Text) : Except Stop Level :=
  if l.plain then l.plainWord scope t
  else
    match t with
    | ['-', '-'] => return { l.settled (← l.settle) with plain := true }
    | '-' :: '-' :: t => l.longWord scope t
    | '-' :: c :: t => l.shortWord scope (c :: t)
    | t => l.plainWord scope t

/-- May the next word name a command? -/
def mayName (l : Level) : Bool :=
  !l.plain && match l.pending with
    | .needs _ => false
    | _ => true

end Level

/-! ## Both levels -/

/-- What stands for the file with settings where none is given: a value from the environment, which
must not be empty then. -/
def environment (env : Option Text) (g : Given) : Except Stop Unit :=
  if g.config = none && env = some [] then .error .usage else .ok ()

/-- The words after a command. -/
def readCommand (env : Option Text) (kind : Kind) (words : List Text) :
    Except Stop (Text × Given) := do
  let l ← words.foldlM (Level.word (some kind)) {}
  let g ← l.settle
  environment env g
  match g.folder with
  | none => .error .usage
  | some folder => return (folder, g)

/-- The words after `help`: at most one, which names what help is asked about. -/
def readHelp : List Text → Stop
  | [] => .help none
  | [name] =>
    if name = "help".toList then .help none
    else match Kind.ofName? name with
      | none => .usage
      | some kind => .help (some kind)
  | _ => .usage

/-- A command as it was read: its kind, its folder and what its level gives. -/
abbrev Read := Kind × Text × Given

/-- All words, from the level before the command. -/
def readWords (env : Option Text) (l : Level) : List Text → Except Stop (Given × Option Read)
  | [] => return (← l.settle, none)
  | t :: ts =>
    match l.mayName, Kind.ofName? t with
    | true, some kind => do
      let read ← readCommand env kind ts
      return (← l.settle, some (kind, read))
    | true, none =>
      if t = "help".toList then .error (readHelp ts)
      else do readWords env (← l.word none t) ts
    | false, _ => do readWords env (← l.word none t) ts

/-- The arguments that two levels give. The level of the command goes before the other one, and
the environment comes last. -/
def combine (env : Option Text) (outer : Given) (read : Option Read) : Arguments :=
  let inner : Given := (read.map (·.2.2)).getD {}
  { command := read.map fun (kind, folder, g) => ⟨kind, folder, g.contextLines⟩
    config := inner.config <|> outer.config <|> env
    verbose := outer.verbose || inner.verbose
    quiet := outer.quiet || inner.quiet
    format := (inner.format <|> outer.format).getD .text
    extension := inner.extension <|> outer.extension
    initConfig := outer.initConfig }

/-- Reads a command line, with the value that the environment has for the file with settings. A
command line that gives nothing at all makes no sense. -/
def read (env : Option Text) (words : List Text) : Except Stop Arguments := do
  let (outer, read) ← readWords env {} words
  environment env outer
  if outer = {} && read = none && env = none then .error .usage
  else return combine env outer read

end CommandLine

end ReportTally
