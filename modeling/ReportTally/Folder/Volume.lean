import ReportTally.Text.Utf8

/-!
# Volumes

A volume is a place for files, seen through five questions: what a path leads to, what its own
path is without links, which names a folder holds, which bytes a file holds, and whether a file
can be written. `Volume m` answers them in a monad `m`, so that a run can work on a real one as
well as on a `Disk`, where all answers are values.

A question that finds no answer has a `Fault`.
-/

namespace ReportTally

/-- Why a path does not lead where it should. -/
inductive Fault where
  /-- Nothing has this name. -/
  | notFound
  /-- A name goes on below what is no folder. -/
  | notFolder
  /-- A folder is no file. -/
  | isFolder
  /-- Links lead on without end. -/
  | tooManyLinks
  /-- A name or a path has too many bytes. -/
  | nameTooLong
  /-- A path has a null character. -/
  | nullCharacter
  /-- Anything else. -/
  | other (what : Text)
  deriving DecidableEq, Repr

/-- What is reported about a fault. -/
def Fault.message : Fault → Text
  | notFound => "No such file or directory (os error 2)".toList
  | notFolder => "Not a directory (os error 20)".toList
  | isFolder => "Is a directory (os error 21)".toList
  | tooManyLinks => "Too many levels of symbolic links (os error 40)".toList
  | nameTooLong => "File name too long (os error 36)".toList
  | nullCharacter => "file name contained an unexpected NUL byte".toList
  | other what => what

/-- What a path leads to when all links are followed. -/
inductive Status where
  /-- A file of this many bytes. -/
  | file (size : Nat)
  /-- A folder. -/
  | folder
  /-- Something else, such as a device. -/
  | special
  deriving DecidableEq, Repr

/-- A place for files. -/
structure Volume (m : Type → Type) where
  /-- What a path leads to. -/
  status : Text → m (Except Fault Status)
  /-- The path of what a path leads to, from the root and without links. -/
  resolve : Text → m (Except Fault Text)
  /-- The names in a folder, in any order. -/
  names : Text → m (Except Fault (List Text))
  /-- The bytes of a file. -/
  read : Text → m (Except Fault Bytes)
  /-- Writes a file. -/
  write : Text → Bytes → m (Except Fault Unit)

namespace Path

/-- Does a path start at the root? -/
def isAbsolute (path : Text) : Bool :=
  path.head? = some '/'

/-- The path of a name in a folder. -/
def join (folder name : Text) : Text :=
  match folder.getLast? with
  | none | some '/' => folder ++ name
  | some _ => folder ++ '/' :: name

/-- The names that a path goes through. An empty name stays where it is. -/
def names (path : Text) : List Text :=
  Text.fields '/' path

/-- How many bytes a name may have. -/
def nameLimit : Nat := 255

/-- How many bytes a path may have. -/
def pathLimit : Nat := 4095

/-- Is a text longer than so many bytes? -/
def exceeds (limit : Nat) (t : Text) : Bool :=
  limit < (Utf8.encode t).length

/-- Why a path leads nowhere on any volume, if it does not. -/
def fault? (path : Text) : Option Fault :=
  if path.contains '\x00' then some .nullCharacter
  else if path.isEmpty then some .notFound
  else if exceeds pathLimit path then some .nameTooLong
  else none

end Path

end ReportTally
