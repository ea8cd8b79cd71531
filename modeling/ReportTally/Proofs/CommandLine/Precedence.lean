import ReportTally.Proofs.CommandLine.Starter
import ReportTally.Proofs.Fold

/-!
# Which settings a run uses

The value of the environment stands in for a path that the words do not give, and has no other
influence on what is read (`CommandLine.read_none_of_read`, `CommandLine.read_of_read_none`).

The settings of a run are those of the file that is named, or else of the file that needs no
mention, if it can be loaded, or else the defaults (`Chosen`). A run that names a file loads it or
fails (`loadSettings_eq_ok_iff`). Then the arguments override the settings of the command, and no
other ones (`IsMerged`), so overriding them again changes nothing (`Settings.merge_merge`). What is
put out is the report of the folder by the settings that result (`carryOut_of_chosen`).

A request for the starter document loads no settings, so it may name a file that cannot be loaded
(`code_of_unloadedSettings`). `settings_of_run` puts this together.
-/

namespace ReportTally

variable {d : Disk} {env : Option Text} {words : List Text} {a : Arguments} {c : Command}
  {s : Settings} {path : Text}

/-! ## The environment -/

namespace CommandLine

variable {kind : Kind} {l : Level}

theorem environment_none (g : Given) : environment none g = .ok () := by
  simp [environment]

theorem environment_of_ne (henv : env ≠ some []) (g : Given) : environment env g = .ok () := by
  simp [environment, henv]

/-- The environment may stop the words after a command, and changes nothing else. -/
theorem readCommand_of_ok {read : Text × Given} (h : readCommand env kind words = .ok read) :
    readCommand none kind words = .ok read := by
  simp only [readCommand, bind_eq_ok_iff] at h ⊢
  obtain ⟨l, hl, g, hg, -, -, hfolder⟩ := h
  exact ⟨l, hl, g, hg, (), environment_none g, hfolder⟩

theorem readCommand_of_ne (henv : env ≠ some []) (kind : Kind) (words : List Text) :
    readCommand env kind words = readCommand none kind words := by
  simp only [readCommand, environment_of_ne henv, environment_none]

theorem readWords_of_ok {result : Given × Option Read} (h : readWords env l words = .ok result) :
    readWords none l words = .ok result := by
  induction words generalizing l with
  | nil => exact h
  | cons t ts ih =>
    unfold readWords at h ⊢
    split at h
    · obtain ⟨read, hread, hrest⟩ := bind_eq_ok_iff.1 h
      exact bind_eq_ok_iff.2 ⟨read, readCommand_of_ok hread, hrest⟩
    · split_ifs at h ⊢ with hhelp
      obtain ⟨l', hl', hrest⟩ := bind_eq_ok_iff.1 h
      exact bind_eq_ok_iff.2 ⟨l', hl', ih hrest⟩
    · obtain ⟨l', hl', hrest⟩ := bind_eq_ok_iff.1 h
      exact bind_eq_ok_iff.2 ⟨l', hl', ih hrest⟩

theorem readWords_of_ne (henv : env ≠ some []) (l : Level) (words : List Text) :
    readWords env l words = readWords none l words := by
  induction words generalizing l with
  | nil => rfl
  | cons t ts ih =>
    unfold readWords
    simp only [readCommand_of_ne henv, ih]

/-- The environment comes after what the words give. -/
theorem combine_environment (env : Option Text) (outer : Given) (read : Option Read) :
    combine env outer read =
      { combine none outer read with config := (combine none outer read).config <|> env } := by
  have hassoc (x y z : Option Text) : ((x <|> y <|> none) <|> z) = (x <|> y <|> z) := by
    cases x <;> cases y <;> rfl
  simp only [combine, hassoc]

theorem read_eq_ok_iff : read env words = .ok a ↔
    ∃ outer r, readWords env {} words = .ok (outer, r) ∧ environment env outer = .ok () ∧
      ¬(outer = {} ∧ r = none ∧ env = none) ∧ combine env outer r = a := by
  simp only [read, bind_eq_ok_iff, Prod.exists, Unique.exists_iff, Bool.and_eq_true,
    decide_eq_true_eq, and_assoc]
  refine exists₂_congr fun outer r => and_congr_right fun _ => and_congr_right fun _ => ?_
  split_ifs with hnone
  · exact iff_of_false nofun fun h => h.1 hnone
  · rw [and_iff_right hnone]
    exact (Except.ok.injEq _ _).to_iff

/-- With a command, the words can be read without the environment too, and say the same but for a
path that they do not give. -/
theorem read_none_of_read (h : read env words = .ok a) (hcommand : a.command = some c) :
    ∃ a', read none words = .ok a' ∧ a = { a' with config := a'.config <|> env } := by
  obtain ⟨outer, r, hwords, -, -, rfl⟩ := read_eq_ok_iff.1 h
  have hr : r ≠ none := by
    rintro rfl
    cases hcommand
  refine ⟨combine none outer r, read_eq_ok_iff.2 ⟨outer, r, readWords_of_ok hwords,
    environment_none outer, fun hnone => hr hnone.2.1, rfl⟩, combine_environment env outer r⟩

/-- A value of the environment that is not empty stands in for a path that the words do not give. -/
theorem read_of_read_none (henv : env ≠ some []) (h : read none words = .ok a) :
    read env words = .ok { a with config := a.config <|> env } := by
  obtain ⟨outer, r, hwords, -, hgiven, rfl⟩ := read_eq_ok_iff.1 h
  refine read_eq_ok_iff.2 ⟨outer, r, (readWords_of_ne henv _ _).trans hwords,
    environment_of_ne henv outer, fun hnone => hgiven ⟨hnone.1, hnone.2.1, rfl⟩,
    combine_environment env outer r⟩

end CommandLine

/-! ## Where settings come from -/

/-- The settings of the file that a path leads to, if it can be loaded. -/
def Disk.settingsAt? (d : Disk) (path : Text) : Option Settings := do
  let bytes ← (d.read path).toOption
  Settings.ofText? (← Utf8.decodeStrict? bytes)

/-- These are the settings of the file that is named, or else those of the file that needs no
mention, if it can be loaded, or else the defaults. -/
def Chosen (d : Disk) (named : Option Text) (s : Settings) : Prop :=
  match named with
  | some path => d.settingsAt? path = some s
  | none => (d.settingsAt? settingsPath).getD .default = s

theorem Settings.load_eq_ok_iff :
    (load Disk.volume path d).1 = .ok s ↔ d.settingsAt? path = some s := by
  rw [load, Disk.bind_apply, Disk.volume_read, Disk.settingsAt?]
  cases d.read path with
  | error fault =>
    refine iff_of_false (fun h => ?_) (fun h => ?_)
    · cases h
    · cases h
  | ok bytes =>
    simp only [Except.toOption, Option.bind_eq_bind, Option.bind_some]
    change ofBytes path bytes = .ok s ↔ _
    unfold ofBytes
    cases Utf8.decodeStrict? bytes with
    | none =>
      refine iff_of_false (fun h => ?_) (fun h => ?_)
      · cases h
      · cases h
    | some t =>
      rw [Option.bind_some]
      cases h : ofText? t <;> simp [h]

theorem Disk.settingsAt?_of_status {fault : Fault} (h : d.status path = .error fault) :
    d.settingsAt? path = none := by
  have hread : ∃ fault, d.read path = .error fault := by
    unfold status at h
    unfold read
    cases hlocate : d.locate false path with
    | error fault => exact ⟨fault, rfl⟩
    | ok p =>
      rw [hlocate] at h
      cases hp : d.find? p with
      | none => exact ⟨.notFound, by simp [bind, Except.bind, hp]⟩
      | some i =>
        cases i with
        | link target => exact ⟨.notFound, by simp [bind, Except.bind, hp]⟩
        | _ => simp [bind, Except.bind, pure, Except.pure, hp] at h
  obtain ⟨fault, hfault⟩ := hread
  rw [settingsAt?, hfault]
  rfl

theorem standingSettings_eq :
    (standingSettings Disk.volume d).1 = (d.settingsAt? settingsPath).getD .default := by
  cases hstatus : d.status settingsPath with
  | error fault =>
    rw [standingSettings, Disk.bind_apply, hasItem_of_error hstatus,
      Disk.settingsAt?_of_status hstatus]
    rfl
  | ok status =>
    rw [standingSettings, Disk.bind_apply, hasItem_of_ok hstatus]
    dsimp only
    rw [if_pos rfl, Disk.bind_apply]
    cases hload : (Settings.load Disk.volume settingsPath d).1 with
    | ok s =>
      rw [Settings.load_eq_ok_iff.1 hload]
      rfl
    | error f =>
      have hnone : d.settingsAt? settingsPath = none := by
        rw [Option.eq_none_iff_forall_ne_some]
        intro s hs
        rw [Settings.load_eq_ok_iff.2 hs] at hload
        cases hload
      rw [hnone]
      rfl

/-- A run that names a file loads it or fails, and any other run has settings. -/
theorem loadSettings_eq_ok_iff :
    (loadSettings Disk.volume a d).1 = .ok s ↔ Chosen d a.config s := by
  unfold loadSettings Chosen
  cases a.config with
  | some path => exact Settings.load_eq_ok_iff
  | none =>
    rw [← standingSettings_eq]
    exact (Except.ok.injEq _ _).to_iff

/-! ## What the arguments override -/

/-- These are the settings `s`, but for what the arguments say about the command: the end of the
names of its reports, and the number of lines after an exception if it is about exceptions. -/
structure IsMerged (s : Settings) (a : Arguments) (c : Command) (merged : Settings) : Prop where
  /-- The names of the reports end as the arguments say, or else as the settings do. -/
  extension : merged.extension c.kind = a.extension.getD (s.extension c.kind)
  /-- The number of lines that the command says counts for exceptions only. -/
  contextLines : merged.contextLines =
    if c.kind = .exceptions then c.contextLines.getD s.contextLines else s.contextLines
  /-- The names of reports of other kinds end as they did. -/
  others : ∀ k, k ≠ c.kind → merged.extension k = s.extension k
  /-- Generated assemblies are known as they were. -/
  generatedSuffix : merged.generatedSuffix = s.generatedSuffix
  /-- Generated classes are known as they were. -/
  generatedNames : merged.generatedNames = s.generatedNames

theorem Settings.isMerged_merge (hcommand : a.command = some c) (s : Settings) :
    IsMerged s a c (s.merge a) := by
  unfold merge
  rw [hcommand]
  exact ⟨if_pos rfl, rfl, fun k hk => if_neg hk, rfl, rfl⟩

namespace IsMerged

variable {s₁ s₂ : Settings}

/-- Nothing else about the settings is left open. -/
theorem unique (h₁ : IsMerged s a c s₁) (h₂ : IsMerged s a c s₂) : s₁ = s₂ := by
  rw [Settings.eq_iff]
  refine ⟨h₁.generatedSuffix.trans h₂.generatedSuffix.symm,
    h₁.generatedNames.trans h₂.generatedNames.symm, h₁.contextLines.trans h₂.contextLines.symm,
    fun k _ => ?_⟩
  rcases eq_or_ne k c.kind with rfl | hk
  · exact h₁.extension.trans h₂.extension.symm
  · exact (h₁.others k hk).trans (h₂.others k hk).symm

/-- What the arguments say once more has been said. -/
theorem again (h₁ : IsMerged s a c s₁) (h₂ : IsMerged s₁ a c s₂) : IsMerged s a c s₂ where
  extension := by
    rw [h₂.extension, h₁.extension]
    cases a.extension <;> rfl
  contextLines := by
    rw [h₂.contextLines, h₁.contextLines]
    split_ifs
    · cases c.contextLines <;> rfl
    · rfl
  others k hk := (h₂.others k hk).trans (h₁.others k hk)
  generatedSuffix := h₂.generatedSuffix.trans h₁.generatedSuffix
  generatedNames := h₂.generatedNames.trans h₁.generatedNames

end IsMerged

/-- Overriding settings twice is overriding them once. -/
theorem Settings.merge_merge (hcommand : a.command = some c) (s : Settings) :
    (s.merge a).merge a = s.merge a :=
  have h := isMerged_merge hcommand s
  (h.again (isMerged_merge hcommand (s.merge a))).unique h

/-! ## Runs -/

/-- What a command puts out with these settings. -/
def reportWith (d : Disk) (s : Settings) (a : Arguments) (c : Command) : Except Failure Text :=
  match d.resolve c.folder with
  | .error fault => .error (.unresolved c.folder fault)
  | .ok folder =>
    match (Folder.summarize Disk.volume s.toRules c.kind (s.extension c.kind) folder d).1 with
    | .error f => .error (.notSummarized f)
    | .ok summary => .ok (summary.render a.format)

theorem carryOut_of_chosen (h : Chosen d a.config s) :
    carryOut Disk.volume a c d = (reportWith d (s.merge a) a c, d) := by
  rw [carryOut, Disk.bind_apply, (looks_loadSettings a).apply_eq (loadSettings_eq_ok_iff.2 h)]
  dsimp only
  rw [Disk.bind_apply, Disk.volume_resolve, reportWith]
  cases d.resolve c.folder with
  | error fault => rfl
  | ok folder =>
    dsimp only
    rw [Disk.bind_apply, (Folder.looks_summarize _ _ _).apply_eq rfl]
    cases (Folder.summarize Disk.volume (s.merge a).toRules c.kind ((s.merge a).extension c.kind)
      folder d).1 <;> rfl

theorem carryOut_of_not_loaded (hconfig : a.config = some path) (h : d.settingsAt? path = none) :
    ∃ f, carryOut Disk.volume a c d = (.error (.settings f), d) := by
  cases hload : (loadSettings Disk.volume a d).1 with
  | ok s =>
    have hchosen := loadSettings_eq_ok_iff.1 hload
    rw [hconfig, Chosen, h] at hchosen
    cases hchosen
  | error f =>
    refine ⟨f, ?_⟩
    rw [carryOut, Disk.bind_apply, (looks_loadSettings a).apply_eq hload]
    rfl

/-- Without a request for the starter document, a file that is named and cannot be loaded ends the
run. -/
theorem run_of_not_loaded (hread : CommandLine.read env words = .ok a)
    (hcommand : a.command = some c) (hinit : a.initConfig = false) (hconfig : a.config = some path)
    (h : d.settingsAt? path = none) :
    ∃ f, run Disk.volume env words d = (.ofFailure f, d) := by
  cases hrefusal : (a.refusal? Disk.volume d).1 with
  | some r => exact ⟨_, run_of_refused hread (a.looks_refusal?.apply_eq hrefusal)⟩
  | none =>
    obtain ⟨f, hf⟩ := carryOut_of_not_loaded (c := c) hconfig h
    refine ⟨.settings f, ?_⟩
    rw [run_of_accepted hread hinit hcommand (a.looks_refusal?.apply_eq hrefusal), hf]
    rfl

/-! ## Effective settings -/

/-- Where the settings of a run come from, and what overrides them. A path that the words give goes
before the one of the environment. What the arguments say about their command overrides the settings
that are chosen, and nothing else does, so doing it twice is doing it once. The report that is put
out is the one by these settings. A file that is named and cannot be loaded ends the run without a
report, unless the starter document is asked for. -/
theorem settings_of_run (hread : CommandLine.read env words = .ok a) (hcommand : a.command = some c)
    (d : Disk) :
    (∃ a', CommandLine.read none words = .ok a' ∧ a = { a' with config := a'.config <|> env }) ∧
      (∀ s : Settings, IsMerged s a c (s.merge a) ∧ (s.merge a).merge a = s.merge a) ∧
      (∀ s, Chosen d a.config s →
        carryOut Disk.volume a c d = (reportWith d (s.merge a) a c, d) ∧
        (a.initConfig = false → (a.refusal? Disk.volume d).1 = none →
          run Disk.volume env words d = (.ofExcept (reportWith d (s.merge a) a c), d))) ∧
      (a.config = none → ∃ s, Chosen d a.config s) ∧
      ∀ path, a.config = some path → d.settingsAt? path = none →
        (∃ f, carryOut Disk.volume a c d = (.error (.settings f), d)) ∧
        (a.initConfig = false → ∃ errors, run Disk.volume env words d =
          ({ code := 1, output := [], errors := errors }, d)) := by
  refine ⟨CommandLine.read_none_of_read hread hcommand,
    fun s => ⟨Settings.isMerged_merge hcommand s, Settings.merge_merge hcommand s⟩,
    fun s hs => ⟨carryOut_of_chosen hs, fun hinit hrefusal => ?_⟩, fun hconfig => ?_,
    fun path hconfig hpath => ⟨carryOut_of_not_loaded hconfig hpath, fun hinit => ?_⟩⟩
  · rw [run_of_accepted hread hinit hcommand (a.looks_refusal?.apply_eq hrefusal),
      carryOut_of_chosen hs]
  · rw [hconfig]
    exact ⟨_, rfl⟩
  · obtain ⟨f, hf⟩ := run_of_not_loaded hread hcommand hinit hconfig hpath
    exact ⟨_, hf⟩

/-- A document that says how the names of mappings end, and how many lines count. -/
def mapDocument : Text :=
  "[scan]\nmappings_extension = \".map\"\n[exceptions]\ncontext_lines = 2\n".toList

/-- The working folder with the document in it. -/
def mapDisk : Disk :=
  workDisk.put ["w".toList, "s.toml".toList] (.file (Utf8.encode mapDocument))

theorem settingsAt?_mapDisk : ∃ s, mapDisk.settingsAt? "s.toml".toList = some s ∧
    s.extension .mappings = ".map".toList ∧ s.contextLines = 2 := by
  have hread : Toml.read? mapDocument =
      some [("scan".toList, .table .defined [("mappings_extension".toList, .text ".map".toList)]),
        ("exceptions".toList, .table .defined [("context_lines".toList, .integer 2)])] := by
    cbv
  have hsettings : ∃ s, Settings.ofText? mapDocument = some s ∧
      s.extension .mappings = ".map".toList ∧ s.contextLines = 2 := by
    rw [Settings.ofText?, hread]
    exact ⟨_, rfl, rfl, rfl⟩
  have hbytes (bytes : Bytes) : (workDisk.put ["w".toList, "s.toml".toList] (.file bytes)).read
      "s.toml".toList = .ok bytes := by
    cbv
  obtain ⟨s, hs, hvalues⟩ := hsettings
  refine ⟨s, ?_, hvalues⟩
  rw [mapDisk, Disk.settingsAt?, hbytes]
  simp [Except.toOption, Utf8.decodeStrict?_encode, hs]

theorem names_mapDisk : mapDisk.names "/w".toList =
    .ok ["s.toml".toList, "b.txt".toList, "a.txt".toList] := by
  have hnames (bytes : Bytes) : (workDisk.put ["w".toList, "s.toml".toList] (.file bytes)).names
      "/w".toList = .ok ["s.toml".toList, "b.txt".toList, "a.txt".toList] := by
    cbv
  exact hnames _

theorem isListing_mapDisk : mapDisk.IsListing "/w".toList ".txt".toList workReports := by
  have hreports (bytes : Bytes) :
      (Disk.candidates ".txt".toList ["s.toml".toList, "b.txt".toList, "a.txt".toList]).filterMap
        ((workDisk.put ["w".toList, "s.toml".toList] (.file bytes)).report? "/w".toList) =
      workReports := by
    cbv
  rw [← hreports (Utf8.encode mapDocument)]
  exact Disk.isListing_candidates names_mapDisk

/-- Mappings of the working folder that end in `.txt`, by the document. -/
def mapArguments : Arguments where
  command := some ⟨.mappings, ['.'], none⟩
  config := some "s.toml".toList
  extension := some ".txt".toList

/-- The document that the environment names says that mappings end in `.map`, and the words say that
they end in `.txt`. A document that the words name goes before the one of the environment, and there
is no report if it is missing. -/
theorem settings_of_mapDisk :
    CommandLine.read (some "s.toml".toList) ["mappings".toList, ['.'], "--ext=.txt".toList] =
        .ok mapArguments ∧
      (∃ s : Settings, Chosen mapDisk mapArguments.config s ∧
        s.extension .mappings = ".map".toList ∧ s.contextLines = 2) ∧
      run Disk.volume (some "s.toml".toList) ["mappings".toList, ['.'], "--ext=.txt".toList]
          mapDisk =
        ({ code := 0
           output := "Analyzing folder: /w\nMapping files: 2\n".toList ++
            "Unique mappings: 2\nEmpty mapping files: 0\n".toList }, mapDisk) ∧
      ∃ errors, run Disk.volume (some "s.toml".toList)
          ["mappings".toList, ['.'], "--config=t.toml".toList] mapDisk =
        ({ code := 1, output := [], errors := errors }, mapDisk) := by
  have hread : CommandLine.read (some "s.toml".toList)
      ["mappings".toList, ['.'], "--ext=.txt".toList] = .ok mapArguments := by
    decide +kernel
  have hread' : CommandLine.read (some "s.toml".toList)
      ["mappings".toList, ['.'], "--config=t.toml".toList] =
      .ok { command := some ⟨.mappings, ['.'], none⟩, config := some "t.toml".toList } := by
    decide +kernel
  obtain ⟨s, hs, hvalues⟩ := settingsAt?_mapDisk
  obtain ⟨-, hmerged, hchosen, -, -⟩ := settings_of_run hread rfl mapDisk
  obtain ⟨-, -, -, -, hfails⟩ := settings_of_run hread' rfl mapDisk
  refine ⟨hread, ⟨s, hs, hvalues⟩, ?_, ?_⟩
  · have hfolder (bytes : Bytes) :
        (workDisk.put ["w".toList, "s.toml".toList] (.file bytes)).status ['.'] = .ok .folder ∧
          (workDisk.put ["w".toList, "s.toml".toList] (.file bytes)).resolve ['.'] =
            .ok "/w".toList := by
      constructor <;> cbv
    have hrefusal : (mapArguments.refusal? Disk.volume mapDisk).1 = none := by
      change (Arguments.folderRefusal? ['.'] (mapDisk.status ['.'])) = none
      rw [mapDisk, (hfolder _).1]
      rfl
    have hlisting : mapDisk.IsListing "/w".toList ((s.merge mapArguments).extension .mappings)
        workReports := by
      rw [(hmerged s).1.extension]
      exact isListing_mapDisk
    have hsummary (rules : Rules) : summarize rules .mappings "/w".toList workReports =
        .ok (.mappings ⟨"/w".toList, 2, 2, 0⟩) := by
      cbv
    rw [(hchosen s hs).2 rfl hrefusal, reportWith, mapDisk, (hfolder _).2, ← mapDisk]
    dsimp only
    rw [Folder.summarize_volume names_mapDisk hlisting, hsummary]
    refine congrArg (·, mapDisk) ?_
    decide +kernel
  · have hmissing (bytes : Bytes) :
        (workDisk.put ["w".toList, "s.toml".toList] (.file bytes)).status "t.toml".toList =
          .error .notFound := by
      cbv
    exact (hfails _ rfl (Disk.settingsAt?_of_status (hmissing _))).2 rfl

/-- Together with a command, a request for the starter document loads no settings: it may name a
file that is missing. -/
theorem code_of_unloadedSettings : ∃ a c,
    CommandLine.read none ["--init-config".toList, "--config=missing.toml".toList,
      "mappings".toList, ['.']] = .ok a ∧
    a.command = some c ∧ a.config = some "missing.toml".toList ∧
    workDisk.settingsAt? "missing.toml".toList = none ∧
    (run Disk.volume none ["--init-config".toList, "--config=missing.toml".toList,
      "mappings".toList, ['.']] workDisk).1.code = 0 := by
  have hread : CommandLine.read none ["--init-config".toList, "--config=missing.toml".toList,
      "mappings".toList, ['.']] =
      .ok { command := some ⟨.mappings, ['.'], none⟩, config := some "missing.toml".toList,
            initConfig := true } := by
    decide +kernel
  have hmissing : workDisk.status "missing.toml".toList = .error .notFound := by cbv
  refine ⟨_, _, hread, rfl, rfl, Disk.settingsAt?_of_status hmissing, ?_⟩
  rw [run_of_read hread, perform_of_initConfig rfl, writeStarter_workDisk]
  rfl

end ReportTally
