import Mathlib
import ReportTally.Proofs.Folder.Disk
import ReportTally.Proofs.Text.Utf8
import ReportTally.Settings

/-!
# Settings and their documents

A document has nine keys that say something about settings (`Settings.Key`), in four sections. What
a document gives for a key (`Settings.given?`) and what settings hold for it (`Settings.value`) are
both values of a document, so settings are compared to a document key by key: a document whose
sections are tables is read as the settings that hold, for every key, what is given, or else the
default (`Settings.ofMembers?_eq_some_iff`). Three readers make settings of values, and each is the
inverse of how its values are written (`Settings.text?_eq_some_iff`, `Settings.texts?_eq_some_iff`,
`Settings.count?_eq_some_iff`), so one lemma about entries serves all keys
(`Settings.entry_eq_some_iff`). The default of a section is that of its keys
(`Settings.defaults_agree`), so a section that is missing is one that mentions nothing
(`Settings.HasSections.readSection?_eq`). Such settings exist just if what is given fits the keys
(`Settings.exists_ofMembers?_iff`). So a document says what its keys say, one by one, and nothing
else in it counts (`Settings.load_of_document`).

The starter document is read as the default settings (`Settings.ofText?_starter`), so a file that
holds it says no more than a file that is missing (`Settings.loads_starter`).

Settings are compared kind by kind, which makes their equality decidable.
-/

namespace ReportTally

theorem Utf8.decodeStrict?_encode (t : Text) : decodeStrict? (encode t) = some t := by
  rw [decodeStrict?, decode_encode]
  exact if_pos rfl

namespace Settings

variable {ms ms' : Toml.Members} {s : Settings} {t : Text}

theorem eq_iff (s t : Settings) : s = t ↔
    s.generatedSuffix = t.generatedSuffix ∧ s.generatedNames = t.generatedNames ∧
      s.contextLines = t.contextLines ∧ ∀ k ∈ Kind.all, s.extension k = t.extension k := by
  constructor
  · rintro rfl
    exact ⟨rfl, rfl, rfl, fun _ _ => rfl⟩
  · obtain ⟨⟨suffix, names, lines⟩, extension⟩ := s
    obtain ⟨⟨suffix', names', lines'⟩, extension'⟩ := t
    rintro ⟨rfl, rfl, rfl, hextension⟩
    obtain rfl : extension = extension' := funext fun k => hextension k k.mem_all
    rfl

instance : DecidableEq Settings := fun s t => decidable_of_iff _ (eq_iff s t).symm

/-- The starter document says what holds when nothing is said. -/
theorem ofText?_starter : ofText? starter = some default := by
  decide +kernel

/-! ## Values and what is read of them -/

theorem text?_eq_some_iff {v : Toml.Value} : text? v = some t ↔ v = .text t := by
  cases v <;> simp [text?]

theorem mapM_text?_eq_some_iff {items : List Toml.Value} {ts : List Text} :
    items.mapM text? = some ts ↔ items = ts.map .text := by
  induction items generalizing ts with
  | nil => cases ts <;> simp
  | cons v items ih =>
    rw [List.mapM_cons]
    simp only [Option.bind_eq_bind, Option.bind_eq_some_iff, text?_eq_some_iff, ih,
      Option.pure_def, Option.some.injEq]
    constructor
    · rintro ⟨t, rfl, ts, rfl, rfl⟩
      rfl
    · intro h
      cases ts with
      | nil => simp at h
      | cons t ts =>
        obtain ⟨rfl, rfl⟩ := List.cons_eq_cons.1 h
        exact ⟨t, rfl, ts, rfl, rfl⟩

theorem texts?_eq_some_iff {v : Toml.Value} {ts : List Text} :
    texts? v = some ts ↔ v = .array (ts.map .text) := by
  cases v <;> simp [texts?, mapM_text?_eq_some_iff]

theorem count?_eq_some_iff {v : Toml.Value} {n : Nat} : count? v = some n ↔ v = .integer n := by
  cases v with
  | integer i =>
    simp only [count?, Option.ite_none_right_eq_some, Option.some.injEq, Toml.Value.integer.injEq]
    omega
  | _ => simp [count?]

/-- An entry is read as a setting, if its reader is the inverse of how the setting is written. -/
theorem entry_eq_some_iff {α : Type} {read : Toml.Value → Option α} {write : α → Toml.Value}
    (hread : ∀ {v x}, read v = some x ↔ v = write x) {default x : α} {o : Option Toml.Value} :
    entry read default o = some x ↔ write x = o.getD (write default) := by
  cases o with
  | none =>
    have hwrite : read (write default) = some default := hread.2 rfl
    rw [entry, Option.getD_none, eq_comm (b := write default), ← hread, hwrite]
  | some v => rw [entry, Option.getD_some, hread, eq_comm]

theorem forEach?_eq_some_iff {α : Type} {f : Kind → Option α} {g : Kind → α} :
    forEach? f = some g ↔ ∀ k, f k = some (g k) := by
  unfold forEach?
  simp only [Option.bind_eq_bind, Option.bind_eq_some_iff, Option.pure_def, Option.some.injEq]
  constructor
  · rintro ⟨_, h₁, _, h₂, _, h₃, _, h₄, _, h₅, _, h₆, rfl⟩ k
    cases k <;> assumption
  · intro h
    refine ⟨_, h .traces, _, h .mappings, _, h .savings, _, h .passthrough, _, h .classes, _,
      h .exceptions, ?_⟩
    funext k
    cases k <;> rfl

/-! ## Keys -/

/-- What a document can say something about. -/
inductive Key where
  /-- How the names of the reports of a kind end. -/
  | extension (k : Kind)
  /-- How the names of assemblies of generated code end. -/
  | generatedSuffix
  /-- Parts of the names of generated classes. -/
  | generatedNames
  /-- How many lines are shown after an exception. -/
  | contextLines
  deriving DecidableEq

namespace Key

/-- The name of the section of a key. -/
def heading : Key → Text
  | extension _ => "scan".toList
  | generatedSuffix => "savings".toList
  | generatedNames => "filters".toList
  | contextLines => "exceptions".toList

/-- The name of a key in its section. -/
def name : Key → Text
  | extension k => extensionKey k
  | generatedSuffix => "generated_suffix".toList
  | generatedNames => "generated_prefixes".toList
  | contextLines => "context_lines".toList

theorem forall_iff {p : Key → Prop} : (∀ key, p key) ↔
    (∀ k, p (.extension k)) ∧ p .generatedSuffix ∧ p .generatedNames ∧ p .contextLines := by
  constructor
  · intro h
    exact ⟨fun k => h (.extension k), h .generatedSuffix, h .generatedNames, h .contextLines⟩
  · rintro ⟨hextension, hsuffix, hnames, hlines⟩ key
    cases key with
    | extension k => exact hextension k
    | generatedSuffix => exact hsuffix
    | generatedNames => exact hnames
    | contextLines => exact hlines

/-- A value is of the form that a key asks for. -/
def Fits : Key → Toml.Value → Prop
  | extension _, v => ∃ t, v = .text t
  | generatedSuffix, v => ∃ t, v = .text t
  | generatedNames, v => ∃ ts : List Text, v = .array (ts.map .text)
  | contextLines, v => ∃ n : Nat, v = .integer n

end Key

/-- What settings hold for a key, as a document writes it. -/
def value (s : Settings) : Key → Toml.Value
  | .extension k => .text (s.extension k)
  | .generatedSuffix => .text s.generatedSuffix
  | .generatedNames => .array (s.generatedNames.map .text)
  | .contextLines => .integer s.contextLines

theorem fits_value (s : Settings) (key : Key) : key.Fits (s.value key) := by
  cases key <;> exact ⟨_, rfl⟩

/-- Values that fit their keys are those of settings. -/
theorem exists_value_eq {w : Key → Toml.Value} (hw : ∀ key : Key, key.Fits (w key)) :
    ∃ s : Settings, ∀ key, s.value key = w key := by
  obtain ⟨hextension, ⟨suffix, hsuffix⟩, ⟨names, hnames⟩, ⟨lines, hlines⟩⟩ := Key.forall_iff.1 hw
  choose extension hextension using hextension
  exact ⟨⟨⟨suffix, names, lines⟩, extension⟩, Key.forall_iff.2
    ⟨fun k => (hextension k).symm, hsuffix.symm, hnames.symm, hlines.symm⟩⟩

/-! ## Sections -/

/-- The sections that a document has are tables. Others than those of the keys do not count. -/
def HasSections (ms : Toml.Members) : Prop :=
  ∀ (key : Key) (v : Toml.Value), ms.find? key.heading = some v →
    ∃ standing members, v = .table standing members

/-- What a section gives for the name of a key. -/
def inSection? : Option Toml.Value → Text → Option Toml.Value
  | some (.table _ members), name => Toml.Members.find? members name
  | _, _ => none

/-- What a document gives for a key. -/
def given? (ms : Toml.Members) (key : Key) : Option Toml.Value :=
  inSection? (ms.find? key.heading) key.name

/-- A document that is well-formed as to settings: its sections are tables, and what it gives for a
key is of the form that the key asks for. -/
structure IsTyped (ms : Toml.Members) : Prop where
  /-- Sections are tables. -/
  sections : HasSections ms
  /-- Values fit their keys. -/
  values : ∀ (key : Key) (v : Toml.Value), given? ms key = some v → key.Fits v

theorem hasSections_of_forall_mem
    (h : ∀ member ∈ ms, ∃ standing members, member.2 = .table standing members) :
    HasSections ms := by
  intro key v hv
  obtain ⟨before, after, hms, -⟩ := List.lookup_eq_some_iff.1 hv
  exact h (key.heading, v) (by simp [hms])

/-- What holds for the keys of a section that mentions none of them is what holds for a section that
a document does not have. -/
theorem defaults_agree :
    extensions? noEntries = some default.extension ∧
      suffix? noEntries = some default.generatedSuffix ∧
      names? noEntries = some default.generatedNames ∧
      lines? noEntries = some default.contextLines := by
  refine ⟨forEach?_eq_some_iff.2 fun k => ?_, rfl, rfl, rfl⟩
  cases k <;> rfl

/-- If the defaults of a section and of its keys agree, the section is read key by key, also if the
document does not have it. -/
theorem HasSections.readSection?_eq (h : HasSections ms) (key : Key) {α : Type}
    {read : Entries → Option α} {default : α} (hdefault : read noEntries = some default) :
    readSection? read default (ms.find? key.heading) =
      read fun _ name => inSection? (ms.find? key.heading) name := by
  cases hv : ms.find? key.heading with
  | none => exact hdefault.symm
  | some v =>
    obtain ⟨standing, members, rfl⟩ := h key v hv
    rfl

/-- A document is read as the settings that hold what it gives, or else the default, for every
key. -/
theorem ofMembers?_eq_some_iff (h : HasSections ms) :
    ofMembers? ms = some s ↔ ∀ key, s.value key = (given? ms key).getD (default.value key) := by
  obtain ⟨hextensions, hsuffix, hnames, hlines⟩ := defaults_agree
  have hscan : readSection? extensions? default.extension (ms.find? "scan".toList) = _ :=
    h.readSection?_eq (.extension .traces) hextensions
  have hsavings : readSection? suffix? default.generatedSuffix (ms.find? "savings".toList) = _ :=
    h.readSection?_eq .generatedSuffix hsuffix
  have hfilters : readSection? names? default.generatedNames (ms.find? "filters".toList) = _ :=
    h.readSection?_eq .generatedNames hnames
  have hexceptions : readSection? lines? default.contextLines (ms.find? "exceptions".toList) = _ :=
    h.readSection?_eq .contextLines hlines
  have husual (k : Kind) : usualExtension k = default.extension k :=
    Option.some.inj (forEach?_eq_some_iff.1 hextensions k)
  rw [Key.forall_iff]
  unfold ofMembers?
  rw [hscan, hsavings, hfilters, hexceptions]
  unfold extensions? suffix? names? lines?
  simp only [Option.bind_eq_bind, Option.bind_eq_some_iff, Option.pure_def, Option.some.injEq,
    forEach?_eq_some_iff, entry_eq_some_iff text?_eq_some_iff,
    entry_eq_some_iff texts?_eq_some_iff, entry_eq_some_iff count?_eq_some_iff, husual]
  constructor
  · rintro ⟨extension, hextension, suffix, hsuffix, names, hnames, lines, hlines, rfl⟩
    exact ⟨hextension, hsuffix, hnames, hlines⟩
  · rintro ⟨hextension, hsuffix, hnames, hlines⟩
    exact ⟨s.extension, hextension, s.generatedSuffix, hsuffix, s.generatedNames, hnames,
      s.contextLines, hlines, rfl⟩

/-- A document whose sections are tables is read just if what it gives fits the keys. -/
theorem exists_ofMembers?_iff (h : HasSections ms) :
    (∃ s, ofMembers? ms = some s) ↔ IsTyped ms := by
  simp only [ofMembers?_eq_some_iff h]
  constructor
  · rintro ⟨s, hs⟩
    refine ⟨h, fun key v hv => ?_⟩
    have hvalue := hs key
    rw [hv, Option.getD_some] at hvalue
    exact hvalue ▸ s.fits_value key
  · intro hms
    refine exists_value_eq fun key => ?_
    cases hv : given? ms key with
    | none => exact default.fits_value key
    | some v => exact hms.values key v hv

/-- Only what is given for the keys counts. -/
theorem ofMembers?_congr (h : HasSections ms) (h' : HasSections ms')
    (hgiven : ∀ key, given? ms' key = given? ms key) : ofMembers? ms' = ofMembers? ms := by
  ext s
  rw [ofMembers?_eq_some_iff h, ofMembers?_eq_some_iff h']
  simp only [hgiven]

/-- The second document has an empty section of this name, where the first has none. Their sections
for other keys are the same. -/
structure AddsEmpty (ms ms' : Toml.Members) (heading : Text) : Prop where
  /-- The first document has no such section. -/
  missing : ms.find? heading = none
  /-- The second one has a section without members. -/
  empty : ∃ standing, ms'.find? heading = some (.table standing [])
  /-- The other sections are the same. -/
  others : ∀ key : Key, key.heading ≠ heading → ms'.find? key.heading = ms.find? key.heading

namespace AddsEmpty

variable {heading : Text} (h : AddsEmpty ms ms' heading)
include h

theorem hasSections (hms : HasSections ms) : HasSections ms' := by
  intro key v hv
  by_cases hkey : key.heading = heading
  · obtain ⟨standing, hempty⟩ := h.empty
    rw [hkey, hempty] at hv
    exact ⟨standing, [], (Option.some.inj hv).symm⟩
  · rw [h.others key hkey] at hv
    exact hms key v hv

/-- An empty section gives what a missing one gives. -/
theorem given?_eq (key : Key) : given? ms' key = given? ms key := by
  by_cases hkey : key.heading = heading
  · obtain ⟨standing, hempty⟩ := h.empty
    rw [given?, given?, hkey, hempty, h.missing]
    rfl
  · rw [given?, given?, h.others key hkey]

end AddsEmpty

/-! ## Files -/

/-- A file with this text, wherever it is, is loaded as these settings. -/
def Loads (t : Text) (s : Settings) : Prop :=
  ∀ (d : Disk) (path : Text) (bytes : Bytes), d.fileBytes? path = some bytes →
    Utf8.decodeStrict? bytes = some t → load Disk.volume path d = (.ok s, d)

theorem loads_of_ofText? (h : ofText? t = some s) : Loads t s := by
  intro d path bytes hbytes hdecoded
  rw [load, Disk.bind_apply, Disk.volume_read, Disk.read_of_fileBytes? hbytes]
  dsimp only
  rw [ofBytes, hdecoded]
  dsimp only
  rw [h]
  rfl

theorem loads_starter : Loads starter default :=
  loads_of_ofText? ofText?_starter

theorem ofText?_of_read? (h : Toml.read? t = some ms) : ofText? t = ofMembers? ms := by
  rw [ofText?, h]
  rfl

/-- A document whose sections are tables, and whose values are of the forms that its keys ask for,
is loaded. Each setting is what is given for its own key, or else its default, whatever the other
keys are given. A document that gives the same for the keys is loaded as the same settings, whatever
else it has; so is one that has an empty section in the place of a missing one. The starter document
is loaded as the default settings. -/
theorem load_of_document (hread : Toml.read? t = some ms) (hms : IsTyped ms) :
    ∃ s, Loads t s ∧
      (∀ key, s.value key = (given? ms key).getD (default.value key)) ∧
      (∀ t' ms', Toml.read? t' = some ms' → HasSections ms' →
        (∀ key, given? ms' key = given? ms key) → Loads t' s) ∧
      (∀ t' ms' heading, Toml.read? t' = some ms' → AddsEmpty ms ms' heading → Loads t' s) ∧
      Loads starter default := by
  obtain ⟨s, hs⟩ := (exists_ofMembers?_iff hms.sections).2 hms
  have hagree : ∀ t' ms', Toml.read? t' = some ms' → HasSections ms' →
      (∀ key, given? ms' key = given? ms key) → Loads t' s := by
    intro t' ms' hread' hms' hgiven
    apply loads_of_ofText?
    rw [ofText?_of_read? hread', ofMembers?_congr hms.sections hms' hgiven, hs]
  refine ⟨s, loads_of_ofText? ((ofText?_of_read? hread).trans hs),
    (ofMembers?_eq_some_iff hms.sections).1 hs, hagree, fun t' ms' heading hread' hadds => ?_,
    loads_starter⟩
  exact hagree t' ms' hread' (hadds.hasSections hms.sections) hadds.given?_eq

/-- A document that has two of the four sections, and one that is none of them. -/
def partialDocument : Text :=
  ["[scan]\ntraces_extension = \".trace\"\n".toList,
    "[filters]\ngenerated_prefixes = [\"Auto_\"]\n".toList,
    "[more]\ncontext_lines = 3\n".toList].flatten

/-- A disk with one file. -/
def oneFileDisk (bytes : Bytes) : Disk where
  items := [(["s".toList], .file bytes)]
  here := []

/-- The members of the partial document. -/
def partialMembers : Toml.Members :=
  [("scan".toList, .table .defined [("traces_extension".toList, .text ".trace".toList)]),
    ("filters".toList,
      .table .defined [("generated_prefixes".toList, .array [.text "Auto_".toList])]),
    ("more".toList, .table .defined [("context_lines".toList, .integer 3)])]

/-- The document gives two of the settings. The number outside of the four sections is none. -/
theorem load_of_partialDocument :
    Toml.read? partialDocument = some partialMembers ∧ IsTyped partialMembers ∧
      ∃ s, load Disk.volume "/s".toList (oneFileDisk (Utf8.encode partialDocument)) =
          (.ok s, oneFileDisk (Utf8.encode partialDocument)) ∧
        s.value (.extension .traces) = .text ".trace".toList ∧
        s.value (.extension .mappings) = .text ".txt".toList ∧
        s.value .generatedNames = .array [.text "Auto_".toList] ∧
        s.value .contextLines = .integer 5 := by
  have hread : Toml.read? partialDocument = some partialMembers := by cbv
  have htraces : given? partialMembers (.extension .traces) = some (.text ".trace".toList) := rfl
  have hmappings : given? partialMembers (.extension .mappings) = none := rfl
  have hnames : given? partialMembers .generatedNames = some (.array [.text "Auto_".toList]) := rfl
  have hlines : given? partialMembers .contextLines = none := rfl
  have hms : IsTyped partialMembers := by
    refine ⟨hasSections_of_forall_mem (by simp [partialMembers]), fun key v hv => ?_⟩
    cases key with
    | extension k =>
      cases k with
      | traces => exact ⟨_, Option.some.inj (hv.symm.trans htraces)⟩
      | _ => exact absurd hv (Option.some_ne_none v).symm
    | generatedNames => exact ⟨["Auto_".toList], Option.some.inj (hv.symm.trans hnames)⟩
    | _ => exact absurd hv (Option.some_ne_none v).symm
  have hbytes (bytes : Bytes) : (oneFileDisk bytes).fileBytes? "/s".toList = some bytes := by cbv
  obtain ⟨s, hload, hs, -⟩ := load_of_document hread hms
  refine ⟨hread, hms, s, hload _ _ _ (hbytes _) (Utf8.decodeStrict?_encode _), ?_, ?_, ?_, ?_⟩
  · rw [hs, htraces, Option.getD_some]
  · rw [hs, hmappings, Option.getD_none]
    rfl
  · rw [hs, hnames, Option.getD_some]
  · rw [hs, hlines, Option.getD_none]
    rfl

end Settings

end ReportTally
