import ReportTally.Folder.Volume

/-!
# Disks

A disk is a volume that is a value. It holds files, folders and symbolic links under their places,
the names on the way from the root. `Disk.follow` walks a path as a file system does: empty names
and single dots stay, two dots go up, a link is replaced by its target, and nothing goes on below a
file. A file that is created must not have a slash after its name.

`Disk.volume` answers the questions of a volume by the disk in its state.
-/

namespace ReportTally

/-- The names on the way from the root. -/
abbrev Place := List Text

/-- What can stand at a place. -/
inductive Item where
  /-- A file. -/
  | file (contents : Bytes)
  /-- A link to a path, which starts at the root or at the folder of the link. -/
  | link (target : Text)
  /-- A folder. -/
  | folder
  /-- A device that holds nothing and keeps nothing. -/
  | device
  deriving DecidableEq, Repr

/-- Items at places. Of two at one place the first one counts, and the root is a folder. -/
structure Disk where
  /-- The items. -/
  items : List (Place × Item) := []
  /-- The folder where relative paths start. -/
  here : Place := []

namespace Disk

/-- How many links a path may lead through. -/
def linkLimit : Nat := 40

/-- What stands at a place. -/
def find? (d : Disk) (p : Place) : Option Item :=
  if p = [] then some .folder else d.items.lookup p

/-- An item at a place, instead of what stood there. -/
def put (d : Disk) (p : Place) (i : Item) : Disk :=
  { d with items := (p, i) :: d.items }

/-- Walks from a place along names, through at most `links` links. If `create` is set the last name
may be missing. -/
def follow (d : Disk) (create : Bool) (links : Nat) (at_ : Place) (names : List Text) :
    Except Fault Place :=
  match names with
  | [] => if create || (d.find? at_).isSome then .ok at_ else .error .notFound
  | name :: rest =>
    if name = [] || name = ['.'] then d.follow create links at_ rest
    else if name = ['.', '.'] then d.follow create links at_.dropLast rest
    else if create && !rest.isEmpty && rest.all List.isEmpty then .error .isFolder
    else if Path.exceeds Path.nameLimit name then .error .nameTooLong
    else
      match d.find? (at_ ++ [name]) with
      | none => if create && rest.isEmpty then .ok (at_ ++ [name]) else .error .notFound
      | some .folder => d.follow create links (at_ ++ [name]) rest
      | some (.link target) =>
        match links with
        | 0 => .error .tooManyLinks
        | links + 1 =>
          d.follow create links (if Path.isAbsolute target then [] else at_)
            (Path.names target ++ rest)
      | some _ => if rest.isEmpty then .ok (at_ ++ [name]) else .error .notFolder
termination_by (links, names.length)

/-- The folder where a path starts. A relative path needs a folder that is there. -/
def origin (d : Disk) (path : Text) : Except Fault Place :=
  match Path.fault? path with
  | some fault => .error fault
  | none =>
    if Path.isAbsolute path then .ok []
    else if d.find? d.here = some .folder then .ok d.here
    else .error .notFound

/-- The place that a path leads to. -/
def locate (d : Disk) (create : Bool) (path : Text) : Except Fault Place := do
  d.follow create linkLimit (← d.origin path) (Path.names path)

/-- The path of a place. -/
def pathOf (p : Place) : Text :=
  '/' :: ['/'].intercalate p

/-- The names in the folder at a place. -/
def namesAt (d : Disk) (p : Place) : List Text :=
  (d.items.filterMap fun (q, _) => if q.dropLast = p then q.getLast? else none).eraseDups

/-- What a path leads to. -/
def status (d : Disk) (path : Text) : Except Fault Status := do
  let p ← d.locate false path
  match d.find? p with
  | some (.file contents) => return .file contents.length
  | some .folder => return .folder
  | some .device => return .special
  | _ => .error .notFound

/-- The path of what a path leads to. -/
def resolve (d : Disk) (path : Text) : Except Fault Text := do
  let p ← d.locate false path
  match Path.fault? (pathOf p) with
  | some fault => .error fault
  | none => return pathOf p

/-- The names in a folder. -/
def names (d : Disk) (path : Text) : Except Fault (List Text) := do
  let p ← d.locate false path
  match d.find? p with
  | some .folder => return d.namesAt p
  | _ => .error .notFolder

/-- The bytes of a file. -/
def read (d : Disk) (path : Text) : Except Fault Bytes := do
  let p ← d.locate false path
  match d.find? p with
  | some (.file contents) => return contents
  | some .folder => .error .isFolder
  | some .device => return []
  | _ => .error .notFound

/-- The disk after writing a file. -/
def write (d : Disk) (path : Text) (contents : Bytes) : Except Fault Disk := do
  let p ← d.locate true path
  match d.find? p with
  | some .folder => .error .isFolder
  | some .device => return d
  | _ => return d.put p (.file contents)

/-- The disk with folders at a place and on the way to it, and the place itself once links are
followed. -/
def makeFolders (d : Disk) (at_ : Place) : List Text → Except Fault (Disk × Place)
  | [] => .ok (d, at_)
  | name :: rest =>
    if name = [] || name = ['.'] then d.makeFolders at_ rest
    else if name = ['.', '.'] then d.makeFolders at_.dropLast rest
    else
      match d.find? (at_ ++ [name]) with
      | none => (d.put (at_ ++ [name]) .folder).makeFolders (at_ ++ [name]) rest
      | some _ => do
        let p ← d.follow false linkLimit at_ [name]
        match d.find? p with
        | some .folder => d.makeFolders p rest
        | _ => .error .notFolder

/-- The disk with an item at a place, and with the folders on the way to it. -/
def add (d : Disk) (at_ : Place) (names : List Text) (i : Item) : Except Fault Disk := do
  let (d, folder) ← d.makeFolders at_ names.dropLast
  match i, names.getLast? with
  | .folder, some name => return (← d.makeFolders folder [name]).1
  | .file contents, some name =>
    let p ← d.follow true linkLimit folder [name]
    return d.put p (.file contents)
  | i, some name => return d.put (folder ++ [name]) i
  | _, none => return d

/-- A disk as a volume. -/
def volume : Volume (StateM Disk) where
  status path := fun d => (d.status path, d)
  resolve path := fun d => (d.resolve path, d)
  names path := fun d => (d.names path, d)
  read path := fun d => (d.read path, d)
  write path contents := fun d =>
    match d.write path contents with
    | .error fault => (.error fault, d)
    | .ok d => (.ok (), d)

end Disk

end ReportTally
