import ReportTally.Text.Basic

/-!
# TOML values

A TOML document is a table of values. Tables come into being in five ways (`Standing`), and the way
decides what may still be added to one: `Members.putDotted` adds a key of the form `a.b.c`,
`Members.define` a header `[a.b.c]`, and `Members.extend` a header `[[a.b.c]]`. Each fails where the
format forbids it: no key is given twice and no finished table is opened again.
-/

namespace ReportTally.Toml

/-- How a table came into being. -/
inductive Standing where
  /-- Between braces. It is finished. -/
  | inline
  /-- By its own header. -/
  | defined
  /-- By the header of a table inside it. -/
  | implied
  /-- By a dotted key. -/
  | dotted
  deriving DecidableEq, Repr

/-- A value. Of dates and times only their presence is kept. -/
inductive Value where
  /-- A text. -/
  | text (t : Text)
  /-- An integer. -/
  | integer (n : Int)
  /-- A float. -/
  | float (x : Float)
  /-- True or false. -/
  | boolean (b : Bool)
  /-- A date, a time or both. -/
  | moment
  /-- An array. -/
  | array (items : List Value)
  /-- A table. -/
  | table (standing : Standing) (members : List (Text × Value))
  /-- An array of tables that was built header by header. -/
  | tables (items : List Value)

/-- The members of a table. -/
abbrev Members := List (Text × Value)

namespace Members

/-- The value of a key. -/
def find? (ms : Members) (key : Text) : Option Value :=
  ms.lookup key

/-- The members with the value of one key made anew from the old one, if any. -/
def update (key : Text) (f : Option Value → Option Value) : Members → Option Members
  | [] => (f none).map fun v => [(key, v)]
  | (k, v) :: ms =>
    if k = key then (f (some v)).map fun v => (k, v) :: ms
    else (update key f ms).map fun ms => (k, v) :: ms

/-- The last of the tables that headers built, changed. -/
def updateLast (f : Members → Option Members) : List Value → Option (List Value)
  | [] => none
  | [.table s ms] => (f ms).map fun ms => [.table s ms]
  | [_] => none
  | v :: vs => (updateLast f vs).map (v :: ·)

/-- Changes the table that a path of headers leads to. Tables on the way that are missing come into
being, and an array of tables stands for its last one. -/
def within (f : Members → Option Members) : List Text → Members → Option Members
  | [], ms => f ms
  | key :: path, ms =>
    update key (fun
      | none => (within f path []).map (.table .implied ·)
      | some (.table s inner) =>
        if s = .inline then none else (within f path inner).map (.table s ·)
      | some (.tables items) => (updateLast (within f path) items).map .tables
      | some _ => none) ms

/-- A key that is not there yet. -/
def putNew (key : Text) (v : Value) (ms : Members) : Option Members :=
  update key (fun
    | none => some v
    | some _ => none) ms

/-- The value of a dotted key: the tables before its last part are missing, or have come into being
without a header of their own, and the innermost one by a dotted key. -/
def putDotted (v : Value) : List Text → Members → Option Members
  | [], _ => none
  | [key], ms => putNew key v ms
  | key :: path, ms =>
    update key (fun
      | none => (putDotted v path []).map (.table .dotted ·)
      | some (.table s inner) =>
        if s = .dotted || (s = .implied && 1 < path.length) then
          (putDotted v path inner).map (.table s ·)
        else none
      | some (.tables items) =>
        if 1 < path.length then (updateLast (putDotted v path) items).map .tables else none
      | some _ => none) ms

/-- The header of a table: it is missing, or came into being by the header of a table inside it. -/
def define (path : List Text) (ms : Members) : Option Members :=
  match path.getLast? with
  | none => none
  | some key =>
    within (update key fun
      | none => some (.table .defined [])
      | some (.table .implied inner) => some (.table .defined inner)
      | some _ => none) path.dropLast ms

/-- The header of one more table of an array. -/
def extend (path : List Text) (ms : Members) : Option Members :=
  match path.getLast? with
  | none => none
  | some key =>
    within (update key fun
      | none => some (.tables [.table .defined []])
      | some (.tables items) => some (.tables (items ++ [.table .defined []]))
      | some _ => none) path.dropLast ms

end Members

end ReportTally.Toml
