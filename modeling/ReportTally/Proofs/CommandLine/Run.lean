import Mathlib
import ReportTally.CommandLine.Run
import ReportTally.Proofs.Folder.Listing

/-!
# Runs over a folder

A run is `Ready` if nothing stands in the way of a summary: the words ask for a command and are not
refused, the settings can be loaded and the folder can be listed. Such a run puts out the summary of
all reports of the folder, or it puts out nothing and says which report is the first one that is
rejected (`outcome_of_folder`). It only looks at the disk (`looks_run`), and what is logged besides
does not matter (`perform_of_logging`).

A request for the starter document is an exception. It is never refused, and it goes before a
command that is named with it (`outcome_of_initConfig`).
-/

namespace ReportTally

variable {d : Disk} {env : Option Text} {words : List Text} {a : Arguments} {c : Command}
  {settings : Settings} {folder : Text}

/-! ## Runs that look only -/

theorem Settings.looks_load (path : Text) : Disk.Looks (load Disk.volume path) := by
  refine (Disk.Looks.read path).bind fun r => ?_
  split <;> exact Disk.Looks.pure _

theorem looks_hasItem (path : Text) : Disk.Looks (hasItem Disk.volume path) := by
  refine (Disk.Looks.status path).bind fun r => ?_
  split <;> exact Disk.Looks.pure _

theorem hasItem_of_ok {path : Text} {status : Status} (h : d.status path = .ok status) :
    hasItem Disk.volume path d = (true, d) := by
  rw [hasItem, Disk.bind_apply, Disk.volume_status, h]
  rfl

theorem hasItem_of_error {path : Text} {fault : Fault} (h : d.status path = .error fault) :
    hasItem Disk.volume path d = (false, d) := by
  rw [hasItem, Disk.bind_apply, Disk.volume_status, h]
  rfl

theorem looks_standingSettings : Disk.Looks (standingSettings Disk.volume) := by
  refine (looks_hasItem settingsPath).bind fun there => ?_
  split
  · refine (Settings.looks_load settingsPath).bind fun r => ?_
    split <;> exact Disk.Looks.pure _
  · exact Disk.Looks.pure _

theorem looks_loadSettings (a : Arguments) : Disk.Looks (loadSettings Disk.volume a) := by
  unfold loadSettings
  split
  · exact Settings.looks_load _
  · exact looks_standingSettings.bind fun _ => Disk.Looks.pure _

theorem Arguments.looks_refusal? (a : Arguments) : Disk.Looks (a.refusal? Disk.volume) := by
  unfold refusal?
  split
  · exact Disk.Looks.pure _
  · split
    · exact Disk.Looks.pure _
    · exact Disk.Looks.pure _
    · exact (Disk.Looks.status _).bind fun _ => Disk.Looks.pure _

theorem looks_carryOut (a : Arguments) (c : Command) : Disk.Looks (carryOut Disk.volume a c) := by
  refine (looks_loadSettings a).bind fun r => ?_
  split
  · exact Disk.Looks.pure _
  · refine (Disk.Looks.resolve c.folder).bind fun r => ?_
    split
    · exact Disk.Looks.pure _
    · refine (Folder.looks_summarize _ _ _).bind fun r => ?_
      split <;> exact Disk.Looks.pure _

theorem looks_perform (h : a.initConfig = false) : Disk.Looks (perform Disk.volume a) := by
  refine a.looks_refusal?.bind fun r => ?_
  rw [h]
  split
  · exact Disk.Looks.pure _
  · simp only [Bool.false_eq_true, if_false]
    split
    · exact Disk.Looks.pure _
    · exact looks_carryOut _ _

/-- Only a request for the starter document changes a disk. -/
theorem looks_run (h : ∀ a, CommandLine.read env words = .ok a → a.initConfig = false) :
    Disk.Looks (run Disk.volume env words) := by
  unfold run
  split
  · exact Disk.Looks.pure _
  · next a ha => exact (looks_perform (h a ha)).bind fun _ => Disk.Looks.pure _

/-! ## Logging -/

/-- What is logged decides nothing, unless more and less is to be logged. -/
theorem perform_of_logging {verbose quiet : Bool} (h : (a.verbose && a.quiet) = false)
    (h' : (verbose && quiet) = false) :
    perform Disk.volume { a with verbose := verbose, quiet := quiet } =
      perform Disk.volume a := by
  have hconflict : ({ a with verbose := verbose, quiet := quiet } : Arguments).conflict? =
      a.conflict? := by
    simp only [Arguments.conflict?, h, h']
  simp only [perform, Arguments.refusal?, hconflict]
  rfl

/-! ## Runs over a folder -/

/-- Nothing stands in the way of a summary. -/
structure Ready (d : Disk) (env : Option Text) (words : List Text) (a : Arguments) (c : Command)
    (settings : Settings) (folder : Text) : Prop where
  /-- The words can be read. -/
  read : CommandLine.read env words = .ok a
  /-- There is a command. -/
  command : a.command = some c
  /-- The request is not refused. -/
  accepted : (a.refusal? Disk.volume d).1 = none
  /-- The settings can be loaded. -/
  loaded : (loadSettings Disk.volume a d).1 = .ok settings
  /-- The folder has a path. -/
  resolved : d.resolve c.folder = .ok folder
  /-- The folder can be listed. -/
  listed : ∃ names, d.names folder = .ok names

/-- The rules of a run. -/
def rulesOf (settings : Settings) (a : Arguments) : Rules :=
  (settings.merge a).toRules

/-- How the names of the reports end that a run reads. -/
def suffixOf (settings : Settings) (a : Arguments) (c : Command) : Text :=
  (settings.merge a).extension c.kind

namespace Ready

variable (h : Ready d env words a c settings folder)
include h

theorem logging (hstarter : a.initConfig = false) : (a.verbose && a.quiet) = false := by
  have haccepted := h.accepted
  rw [Arguments.refusal?, hstarter, h.command] at haccepted
  cases hlogging : a.verbose && a.quiet with
  | false => rfl
  | true =>
    rw [Arguments.conflict?, if_pos hlogging] at haccepted
    cases haccepted

theorem carryOut {reports : List Named}
    (hreports : d.IsListing folder (suffixOf settings a c) reports) :
    ReportTally.carryOut Disk.volume a c d =
      (match summarize (rulesOf settings a) c.kind folder reports with
        | .ok s => .ok (s.render a.format)
        | .error (r, e) => .error (.notSummarized (.flawed (Path.join folder r.name) e)), d) := by
  obtain ⟨names, hnames⟩ := h.listed
  rw [ReportTally.carryOut, Disk.bind_apply, (looks_loadSettings a).apply_eq h.loaded]
  dsimp only
  rw [Disk.bind_apply, Disk.volume_resolve, h.resolved]
  dsimp only
  rw [Disk.bind_apply, ← suffixOf, Folder.summarize_volume hnames hreports, rulesOf]
  cases summarize (settings.merge a).toRules c.kind folder reports <;> rfl

theorem run (hstarter : a.initConfig = false) {reports : List Named}
    (hreports : d.IsListing folder (suffixOf settings a c) reports) :
    ReportTally.run Disk.volume env words d =
      (match summarize (rulesOf settings a) c.kind folder reports with
        | .ok s => .ofOutput (s.render a.format)
        | .error (r, e) =>
          .ofFailure (.notSummarized (.flawed (Path.join folder r.name) e)), d) := by
  have hperform : perform Disk.volume a d = ReportTally.carryOut Disk.volume a c d := by
    rw [perform, Disk.bind_apply, a.looks_refusal?.apply_eq h.accepted, hstarter, h.command]
    rfl
  rw [ReportTally.run, h.read]
  dsimp only
  rw [Disk.bind_apply, hperform, h.carryOut hreports]
  cases summarize (rulesOf settings a) c.kind folder reports <;> rfl

end Ready

/-! ## A working folder -/

/-- A working folder with two traces, of which the second one names no assembly. -/
def workDisk : Disk where
  items :=
    [(["w".toList, "b.txt".toList], .file (Utf8.encode "SAVINGS p: 3\n".toList)),
      (["w".toList, "a.txt".toList], .file (Utf8.encode "Analyzing assembly: x\n".toList)),
      (["w".toList], .folder)]
  here := ["w".toList]

/-- The two traces. -/
def workReports : List Named :=
  [⟨"a.txt".toList, "Analyzing assembly: x\n".toList⟩, ⟨"b.txt".toList, "SAVINGS p: 3\n".toList⟩]

theorem names_workDisk :
    workDisk.names "/w".toList = .ok ["b.txt".toList, "a.txt".toList] := by
  cbv

theorem isListing_workReports : workDisk.IsListing "/w".toList ".txt".toList workReports := by
  have hreports : (Disk.candidates ".txt".toList ["b.txt".toList, "a.txt".toList]).filterMap
      (workDisk.report? "/w".toList) = workReports := by
    cbv
  rw [← hreports]
  exact Disk.isListing_candidates names_workDisk

theorem ready_workDisk {kind : Kind} (hread : CommandLine.read none words = .ok a)
    (hcommand : a.command = some ⟨kind, ['.'], none⟩) (hconfig : a.config = none)
    (hconflict : a.conflict? = none) :
    Ready workDisk none words a ⟨kind, ['.'], none⟩ .default "/w".toList where
  read := hread
  command := hcommand
  accepted := by
    have hstatus : workDisk.status ['.'] = .ok .folder := by cbv
    rw [Arguments.refusal?]
    split
    · rfl
    · rw [hcommand, hconflict]
      dsimp only
      rw [Disk.bind_apply, Disk.volume_status, hstatus]
      rfl
  loaded := by
    have hstatus : workDisk.status settingsPath = .error .notFound := by cbv
    rw [loadSettings, hconfig]
    dsimp only
    rw [Disk.bind_apply, standingSettings, Disk.bind_apply, hasItem_of_error hstatus]
    rfl
  resolved := by cbv
  listed := ⟨_, names_workDisk⟩

theorem writeStarter_workDisk : (writeStarter Disk.volume workDisk).1 =
    .ok ("Created ".toList ++ settingsPath ++ " with default settings.\n".toList) := by
  have hstatus : workDisk.status settingsPath = .error .notFound := by cbv
  have hplace : workDisk.locate true settingsPath = .ok [['w'], settingsPath] := by cbv
  have hnone : workDisk.find? [['w'], settingsPath] = none := by cbv
  have hwrite : ∀ contents, Disk.volume.write settingsPath contents workDisk =
      (.ok (), workDisk.put [['w'], settingsPath] (.file contents)) := by
    intro contents
    simp [Disk.volume, Disk.write, hplace, hnone, bind, Except.bind, pure, Except.pure]
  rw [writeStarter, Disk.bind_apply, hasItem_of_error hstatus]
  simp only [Bool.false_eq_true, if_false]
  rw [Disk.bind_apply, hwrite]
  rfl

/-! ## All or nothing -/

/-- A run over a folder gives all or nothing. If no report is rejected, the summary of all reports is
put out; otherwise nothing is put out, and the first report that is rejected is named with its flaw,
whatever the reports before and after it say. The disk stays as it is. Neither what is logged nor
the order in which the items of the disk were created has an influence. -/
theorem outcome_of_folder (h : Ready d env words a c settings folder)
    (hstarter : a.initConfig = false) :
    ∃ reports, d.IsListing folder (suffixOf settings a c) reports ∧
      ((∀ r ∈ reports, ∀ e, ¬Rejects (rulesOf settings a) c.kind r.contents e) →
        ∃ s, summarize (rulesOf settings a) c.kind folder reports = .ok s ∧
          run Disk.volume env words d = ({ code := 0, output := s.render a.format }, d)) ∧
      (∀ r e, FirstRejected (rulesOf settings a) c.kind reports (r, e) →
        run Disk.volume env words d =
          ({ code := 1
             errors := "Error: ".toList ++ ("Failed to parse ".toList ++ Path.join folder r.name ++
              ": ".toList ++ e.message) ++ ['\n'] }, d)) ∧
      ((∀ r ∈ reports, ∀ e, ¬Rejects (rulesOf settings a) c.kind r.contents e) ∨
        ∃ r e, FirstRejected (rulesOf settings a) c.kind reports (r, e)) ∧
      (∀ env' words' verbose quiet, (verbose && quiet) = false →
        CommandLine.read env' words' = .ok { a with verbose := verbose, quiet := quiet } →
        run Disk.volume env' words' d = run Disk.volume env words d) ∧
      ∀ d', Disk.SameItems d' d →
        (run Disk.volume env words d').1 = (run Disk.volume env words d).1 := by
  obtain ⟨names, hnames⟩ := h.listed
  obtain ⟨reports, hreports⟩ := Disk.exists_isListing hnames (suffixOf settings a c)
  refine ⟨reports, hreports, fun hno => ?_, fun r e hfirst => ?_, ?_, ?_, ?_⟩
  · obtain ⟨s, hs⟩ := exists_summarize_eq_ok hno folder
    refine ⟨s, hs, ?_⟩
    rw [h.run hstarter hreports, hs]
    rfl
  · rw [h.run hstarter hreports, summarize_eq_error_iff.2 hfirst]
    rfl
  · by_cases hno : ∀ r ∈ reports, ∀ e, ¬Rejects (rulesOf settings a) c.kind r.contents e
    · exact Or.inl hno
    · push Not at hno
      obtain ⟨r, hr, e, he⟩ := hno
      obtain ⟨x, hx⟩ := exists_firstRejected hr he
      exact Or.inr ⟨x.1, x.2, hx⟩
  · intro env' words' verbose quiet hlogging hread
    rw [run, run, hread, h.read]
    dsimp only
    rw [perform_of_logging (h.logging hstarter) hlogging]
  · refine fun d' hd => (looks_run fun a' ha' => ?_).same d' d hd
    rw [h.read] at ha'
    cases ha'
    exact hstarter

/-- The trace without an assembly is named, with more logged as well, and also where the files were
created the other way round. -/
theorem outcome_of_badTrace :
    Ready workDisk none ["savings".toList, ['.']] { command := some ⟨.savings, ['.'], none⟩ }
      ⟨.savings, ['.'], none⟩ .default "/w".toList ∧
    run Disk.volume none ["savings".toList, ['.']] workDisk =
      ({ code := 1
         errors := "Error: Failed to parse /w/b.txt: SAVINGS line for processor 'p' ".toList ++
          "has no 'Analyzing assembly:' line\n".toList },
        workDisk) ∧
    run Disk.volume none ["savings".toList, ['.'], "-v".toList] workDisk =
      run Disk.volume none ["savings".toList, ['.']] workDisk ∧
    (run Disk.volume none ["savings".toList, ['.']]
        { workDisk with items := workDisk.items.reverse }).1 =
      (run Disk.volume none ["savings".toList, ['.']] workDisk).1 := by
  have hread : CommandLine.read none ["savings".toList, ['.']] =
      .ok { command := some ⟨.savings, ['.'], none⟩ } := by
    decide +kernel
  have hready := ready_workDisk hread rfl rfl rfl
  obtain ⟨reports, hreports, -, hrejected, -, hlogging, hsame⟩ :=
    outcome_of_folder hready rfl
  obtain rfl : reports = workReports := hreports.unique isListing_workReports
  have hfirst : FirstRejected (rulesOf .default { command := some ⟨.savings, ['.'], none⟩ }) .savings
      workReports (⟨"b.txt".toList, "SAVINGS p: 3\n".toList⟩, .noAssembly ['p']) := by
    have hread : Savings.Trace.ofText "Analyzing assembly: x\n".toList = .ok ⟨some ['x'], []⟩ := by
      decide +kernel
    have hflaw : Savings.Trace.ofText "SAVINGS p: 3\n".toList = .error (.noAssembly ['p']) := by
      decide +kernel
    refine ⟨[⟨"a.txt".toList, "Analyzing assembly: x\n".toList⟩], _, [], rfl, ?_, rfl, hflaw⟩
    rintro r hr ⟨r', e⟩ ⟨-, he⟩
    rw [List.mem_singleton.1 hr, Rejects, hread] at he
    cases he
  refine ⟨hready, ?_, ?_, ?_⟩
  · rw [hrejected _ _ hfirst]
    refine congrArg (·, workDisk) ?_
    decide +kernel
  · exact hlogging none _ true false rfl (by decide +kernel)
  · exact hsame _ (.of_perm rfl (List.reverse_perm _) (by decide +kernel))

/-- Together with a command, a request for the starter document is not refused, and the folder is
not summarized although no report in it is rejected. -/
theorem outcome_of_initConfig :
    ∃ a s, Ready workDisk none ["--init-config".toList, "mappings".toList, ['.']] a
        ⟨.mappings, ['.'], none⟩ .default "/w".toList ∧
      workDisk.IsListing "/w".toList (suffixOf .default a ⟨.mappings, ['.'], none⟩) workReports ∧
      (∀ r ∈ workReports, ∀ e, ¬Rejects (rulesOf .default a) .mappings r.contents e) ∧
      summarize (rulesOf .default a) .mappings "/w".toList workReports = .ok s ∧
      (run Disk.volume none ["--init-config".toList, "mappings".toList, ['.']] workDisk).1.code
        = 0 ∧
      (run Disk.volume none ["--init-config".toList, "mappings".toList, ['.']] workDisk).1.output
        ≠ s.render a.format := by
  have hread : CommandLine.read none ["--init-config".toList, "mappings".toList, ['.']] =
      .ok { command := some ⟨.mappings, ['.'], none⟩, initConfig := true } := by
    decide +kernel
  have hready := ready_workDisk hread rfl rfl rfl
  have hrun : (run Disk.volume none ["--init-config".toList, "mappings".toList, ['.']]
      workDisk).1 = .ofOutput "Created .scopestats.toml with default settings.\n".toList := by
    rw [run, hread]
    dsimp only
    rw [Disk.bind_apply, perform, Disk.bind_apply,
      (Arguments.looks_refusal? _).apply_eq hready.accepted]
    dsimp only
    rw [if_pos rfl, writeStarter_workDisk]
    decide +kernel
  refine ⟨_, _, hready, isListing_workReports, fun _ _ _ => id, rfl, ?_, ?_⟩
  · rw [hrun]
    rfl
  · rw [hrun]
    decide +kernel

end ReportTally
