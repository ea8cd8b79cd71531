import ReportTally.Proofs.CommandLine.Run
import ReportTally.Proofs.Folder.NewFile
import ReportTally.Proofs.Settings

/-!
# Runs and the starter document

The only file that a run writes is the starter document. It is written where nothing stands in its
place (`Disk.Proper.run_of_absent`), and where something does the run fails
(`Disk.Proper.run_of_present`). So of the disks before and after any number of runs some are the
first one, and all others are the first one with the document (`Disk.Proper.history_eq`).

The document says what holds without it, so a report command comes to the same settings and the same
folder. It says the same as before unless a report of the folder is the document
(`Disk.Proper.run_started`), which a link can make it although its own name does not end as the
names of reports do (`output_of_linkedDisk`). `starter_of_runs` puts this together.

A link in the place of the document that leads nowhere is left aside (`Disk.NotDangling`).
-/

namespace ReportTally

variable {d : Disk} {env : Option Text} {words : List Text} {a : Arguments}

/-! ## The place of the settings -/

namespace Disk

/-- The place of the file with settings that needs no mention. -/
def settingsPlace (d : Disk) : Place :=
  d.here ++ [settingsPath]

/-- The disk once the starter document has been written. -/
def started (d : Disk) : Disk :=
  d.put d.settingsPlace (.file (Utf8.encode Settings.starter))

/-- A link in the place of the settings leads somewhere. -/
def NotDangling (d : Disk) : Prop :=
  ∀ target, d.find? d.settingsPlace = some (.link target) → ∃ s, d.status settingsPath = .ok s

theorem settingsPlace_ne_nil (d : Disk) : d.settingsPlace ≠ [] := by
  simp [settingsPlace]

theorem isName_settingsPath : Path.IsName settingsPath := by
  decide +kernel

theorem find?_started (d : Disk) (q : Place) : d.started.find? q =
    if q = d.settingsPlace then some (.file (Utf8.encode Settings.starter)) else d.find? q :=
  find?_put d.settingsPlace_ne_nil d _ q

theorem find?_started_settingsPlace (d : Disk) : d.started.find? d.started.settingsPlace =
    some (.file (Utf8.encode Settings.starter)) := by
  rw [find?_started]
  exact if_pos rfl

theorem notDangling_of_absent (h : d.find? d.settingsPlace = none) : d.NotDangling := by
  intro target htarget
  rw [h] at htarget
  cases htarget

theorem notDangling_started (d : Disk) : d.started.NotDangling := by
  intro target h
  rw [find?_started_settingsPlace] at h
  cases h

namespace Proper

variable (hd : d.Proper)
include hd

theorem started (h : d.find? d.settingsPlace = none) : d.started.Proper :=
  hd.put hd.here isName_settingsPath h _

theorem locate_settingsPath (create : Bool) : d.locate create settingsPath =
    d.follow create linkLimit d.here [settingsPath] := by
  have hfault : Path.fault? settingsPath = none := by decide +kernel
  have hroot : Path.isAbsolute settingsPath = false := by decide +kernel
  have hnames : Path.names settingsPath = [settingsPath] := by decide +kernel
  rw [locate, origin, hfault, hroot, hnames, hd.here]
  rfl

theorem status_of_absent (h : d.find? d.settingsPlace = none) :
    d.status settingsPath = .error .notFound := by
  rw [status, hd.locate_settingsPath, follow_cons isName_settingsPath.1, ← settingsPlace, h]
  rfl

theorem exists_status_of_present (hlink : d.NotDangling) {i : Item}
    (h : d.find? d.settingsPlace = some i) : ∃ s, d.status settingsPath = .ok s := by
  have hwalk := follow_cons isName_settingsPath.1 d linkLimit d.here []
  rw [← settingsPlace, h, ← hd.locate_settingsPath] at hwalk
  cases i with
  | link target => exact hlink target h
  | folder =>
    dsimp only at hwalk
    rw [follow, h] at hwalk
    exact ⟨.folder, by rw [status, hwalk]; simp [bind, Except.bind, pure, Except.pure, h]⟩
  | file bytes =>
    exact ⟨.file bytes.length, by
      rw [status, hwalk]; simp [bind, Except.bind, pure, Except.pure, h]⟩
  | device =>
    exact ⟨.special, by rw [status, hwalk]; simp [bind, Except.bind, pure, Except.pure, h]⟩

theorem hasItem_settingsPath (hlink : d.NotDangling) :
    hasItem volume settingsPath d = ((d.find? d.settingsPlace).isSome, d) := by
  cases h : d.find? d.settingsPlace with
  | none => exact hasItem_of_error (hd.status_of_absent h)
  | some i =>
    obtain ⟨s, hs⟩ := hd.exists_status_of_present hlink h
    exact hasItem_of_ok hs

theorem write_of_absent (h : d.find? d.settingsPlace = none) :
    d.write settingsPath (Utf8.encode Settings.starter) = .ok d.started := by
  have hlocate : d.locate true settingsPath = .ok d.settingsPlace := by
    obtain ⟨⟨hempty, hdot, hdots, hlength⟩, -⟩ := isName_settingsPath
    rw [hd.locate_settingsPath, follow, ← settingsPlace, h]
    simp [hempty, hdot, hdots, hlength]
  rw [write, hlocate]
  simp only [bind, Except.bind, h]
  rfl

/-! ## Writing -/

theorem writeStarter_of_absent (h : d.find? d.settingsPlace = none) :
    writeStarter volume d =
      (.ok "Created .scopestats.toml with default settings.\n".toList, d.started) := by
  have hwrite : volume.write settingsPath (Utf8.encode Settings.starter) d =
      (.ok (), d.started) := by
    simp [volume, hd.write_of_absent h]
  rw [writeStarter, bind_apply, hd.hasItem_settingsPath (notDangling_of_absent h), h]
  dsimp only [Option.isSome_none]
  rw [if_neg Bool.false_ne_true, bind_apply, hwrite]
  refine congrArg (·, d.started) ?_
  decide +kernel

theorem writeStarter_of_present (hlink : d.NotDangling) (h : (d.find? d.settingsPlace).isSome) :
    writeStarter volume d = (.error .starterExists, d) := by
  rw [writeStarter, bind_apply, hd.hasItem_settingsPath hlink, h]
  rfl

end Proper

end Disk

/-! ## Requests -/

theorem run_of_read (hread : CommandLine.read env words = .ok a) (d : Disk) :
    run Disk.volume env words d =
      (.ofExcept (perform Disk.volume a d).1, (perform Disk.volume a d).2) := by
  rw [run, hread]
  rfl

theorem perform_of_initConfig (hinit : a.initConfig = true) (d : Disk) :
    perform Disk.volume a d = writeStarter Disk.volume d := by
  have hrefusal : a.refusal? Disk.volume d = (none, d) := by
    rw [Arguments.refusal?, hinit]
    rfl
  rw [perform, Disk.bind_apply, hrefusal, hinit]
  rfl

theorem run_of_refused {r : Refusal} (hread : CommandLine.read env words = .ok a)
    (hrefused : a.refusal? Disk.volume d = (some r, d)) :
    run Disk.volume env words d = (.ofFailure (.refused r), d) := by
  have hperform : perform Disk.volume a d = (.error (.refused r), d) := by
    rw [perform, Disk.bind_apply, hrefused]
    rfl
  rw [run_of_read hread, hperform]
  rfl

theorem run_of_accepted {c : Command} (hread : CommandLine.read env words = .ok a)
    (hinit : a.initConfig = false) (hcommand : a.command = some c)
    (haccepted : a.refusal? Disk.volume d = (none, d)) :
    run Disk.volume env words d =
      (.ofExcept (carryOut Disk.volume a c d).1, (carryOut Disk.volume a c d).2) := by
  have hperform : perform Disk.volume a d = carryOut Disk.volume a c d := by
    rw [perform, Disk.bind_apply, haccepted, hinit, hcommand]
    rfl
  rw [run_of_read hread, hperform]

/-! ## Runs and the document -/

/-- The starter document is written where nothing stands in its place. -/
theorem Disk.Proper.run_of_absent (hd : d.Proper) (h : d.find? d.settingsPlace = none)
    (hread : CommandLine.read env words = .ok a) (hinit : a.initConfig = true) :
    run volume env words d =
      ({ code := 0, output := "Created .scopestats.toml with default settings.\n".toList },
        d.started) := by
  rw [run_of_read hread, perform_of_initConfig hinit, hd.writeStarter_of_absent h]
  rfl

/-- Where something stands in its place the run fails. -/
theorem Disk.Proper.run_of_present (hd : d.Proper) (hlink : d.NotDangling)
    (h : (d.find? d.settingsPlace).isSome) (hread : CommandLine.read env words = .ok a)
    (hinit : a.initConfig = true) :
    run volume env words d =
      ({ code := 1
         errors := "Error: .scopestats.toml already exists. ".toList ++
          "Remove it first or edit it manually.\n".toList }, d) := by
  have hmessage : Outcome.ofFailure .starterExists =
      { code := 1
        errors := "Error: .scopestats.toml already exists. ".toList ++
          "Remove it first or edit it manually.\n".toList } := by decide +kernel
  rw [run_of_read hread, perform_of_initConfig hinit, hd.writeStarter_of_present hlink h]
  exact congrArg (·, d) hmessage

/-- What is asked of a run: the words, and the value that the environment has. -/
structure Request where
  /-- The value that the environment has for the file with settings. -/
  env : Option Text
  /-- The words. -/
  words : List Text

/-- The disk after a run. -/
def Disk.after (d : Disk) (r : Request) : Disk :=
  (run volume r.env r.words d).2

/-- A run writes the starter document where nothing stands in its place, or changes nothing. -/
theorem Disk.Proper.after_cases (hd : d.Proper) (hlink : d.NotDangling) (r : Request) :
    d.after r = d ∨ (d.find? d.settingsPlace = none ∧ d.after r = d.started) := by
  by_cases hinit : ∃ a, CommandLine.read r.env r.words = .ok a ∧ a.initConfig = true
  · obtain ⟨a, hread, hinit⟩ := hinit
    cases h : d.find? d.settingsPlace with
    | none =>
      rw [after, hd.run_of_absent h hread hinit]
      exact Or.inr ⟨rfl, rfl⟩
    | some i =>
      rw [after, hd.run_of_present hlink (by rw [h]; rfl) hread hinit]
      exact Or.inl rfl
  · refine Or.inl ((looks_run fun a hread => ?_).keeps d)
    cases hstarter : a.initConfig with
    | false => rfl
    | true => exact absurd ⟨a, hread, hstarter⟩ hinit

/-- The disks before, between and after runs. -/
def Disk.history (d : Disk) (rs : List Request) : List Disk :=
  rs.scanl Disk.after d

theorem Disk.Proper.history_of_present (hd : d.Proper) (hlink : d.NotDangling)
    (h : (d.find? d.settingsPlace).isSome) (rs : List Request) :
    d.history rs = List.replicate (rs.length + 1) d := by
  induction rs with
  | nil => rfl
  | cons r rs ih =>
    have hafter : d.after r = d := by
      rcases hd.after_cases hlink r with hsame | ⟨hnone, -⟩
      · exact hsame
      · rw [hnone] at h
        cases h
    rw [history, List.scanl_cons, hafter, ← history, ih]
    rfl

theorem Disk.Proper.history_eq (hd : d.Proper) (hlink : d.NotDangling) (rs : List Request) :
    ∃ n m, n + m = rs.length ∧ (0 < m → d.find? d.settingsPlace = none) ∧
      d.history rs = List.replicate (n + 1) d ++ List.replicate m d.started := by
  induction rs with
  | nil => exact ⟨0, 0, rfl, fun h => absurd h (Nat.lt_irrefl 0), rfl⟩
  | cons r rs ih =>
    rw [history, List.scanl_cons, ← history]
    rcases hd.after_cases hlink r with hsame | ⟨hnone, hstarted⟩
    · obtain ⟨n, m, hlength, hnone, hhistory⟩ := ih
      refine ⟨n + 1, m, by rw [List.length_cons]; omega, hnone, ?_⟩
      rw [hsame, hhistory]
      rfl
    · refine ⟨0, rs.length + 1, by rw [List.length_cons]; omega, fun _ => hnone, ?_⟩
      rw [hstarted, (hd.started hnone).history_of_present d.notDangling_started
        (by rw [d.find?_started_settingsPlace]; rfl)]
      rfl

/-! ## Reports after the starter document -/

namespace Disk

theorem status_eq_folder_iff {path : Text} : d.status path = .ok .folder ↔
    ∃ p, d.locate false path = .ok p ∧ d.find? p = some .folder := by
  unfold status
  cases d.locate false path with
  | error fault => simp [bind, Except.bind]
  | ok p =>
    cases hp : d.find? p with
    | none => simp [bind, Except.bind, hp]
    | some i => cases i <;> simp [bind, Except.bind, pure, Except.pure, hp]

theorem status_of_locate_eq_error {path : Text} {fault : Fault}
    (h : d.locate false path = .error fault) : d.status path = .error fault := by
  rw [status, h]
  rfl

theorem resolve_of_locate {path : Text} {p : Place} (h : d.locate false path = .ok p) :
    d.resolve path =
      match Path.fault? (pathOf p) with
      | some fault => .error fault
      | none => .ok (pathOf p) := by
  rw [resolve, h]
  rfl

theorem status_started_of_same (h : d.find? d.settingsPlace = none) {path : Text}
    (hsame : d.started.locate false path = d.locate false path) :
    d.started.status path = d.status path := by
  rw [status, status, hsame]
  cases hlocate : d.locate false path with
  | error fault => rfl
  | ok p =>
    have hne : p ≠ d.settingsPlace := by
      rintro rfl
      have hsome := isSome_of_locate hlocate
      rw [h] at hsome
      cases hsome
    simp only [bind, Except.bind, find?_started, if_neg hne]

theorem locate_started (hd : d.Proper) (h : d.find? d.settingsPlace = none) :
    d.started.locate false settingsPath = .ok d.settingsPlace := by
  have hwalk := follow_cons isName_settingsPath.1 d.started linkLimit d.started.here []
  rw [← settingsPlace, find?_started_settingsPlace] at hwalk
  rw [(hd.started h).locate_settingsPath, hwalk]
  rfl

theorem Proper.fileBytes?_started (hd : d.Proper) (h : d.find? d.settingsPlace = none) :
    d.started.fileBytes? settingsPath = some (Utf8.encode Settings.starter) :=
  fileBytes?_eq_some_iff.2 ⟨_, locate_started hd h, d.find?_started_settingsPlace⟩

theorem standingSettings_of_absent (hd : d.Proper) (h : d.find? d.settingsPlace = none) :
    standingSettings volume d = (.default, d) := by
  rw [standingSettings, bind_apply, hd.hasItem_settingsPath (notDangling_of_absent h), h]
  rfl

/-- The starter document says what holds without it. -/
theorem standingSettings_started (hd : d.Proper) (h : d.find? d.settingsPlace = none) :
    standingSettings volume d.started = (.default, d.started) := by
  have hload : Settings.load volume settingsPath d.started = (.ok .default, d.started) :=
    Settings.loads_starter _ _ _ (hd.fileBytes?_started h) (Utf8.decodeStrict?_encode _)
  rw [standingSettings, bind_apply,
    (hd.started h).hasItem_settingsPath d.notDangling_started, find?_started_settingsPlace]
  dsimp only [Option.isSome_some]
  rw [if_pos rfl, bind_apply, hload]
  rfl

end Disk

theorem loadSettings_of_standing (hconfig : a.config = none)
    (h : standingSettings Disk.volume d = (.default, d)) :
    loadSettings Disk.volume a d = (.ok .default, d) := by
  rw [loadSettings, hconfig]
  dsimp only
  rw [Disk.bind_apply, h]
  rfl

theorem Arguments.folderRefusal?_eq_none_iff {path : Text} {s : Except Fault Status} :
    folderRefusal? path s = none ↔ s = .ok .folder := by
  unfold folderRefusal?
  split <;> simp_all

section

variable {c : Command} (hread : CommandLine.read env words = .ok a) (hinit : a.initConfig = false)
  (hcommand : a.command = some c)
include hread hinit hcommand

omit hread in
theorem refusal?_of_conflict {r : Refusal} (hconflict : a.conflict? = some r) (d : Disk) :
    a.refusal? Disk.volume d = (some r, d) := by
  rw [Arguments.refusal?, hinit, hcommand, hconflict]
  rfl

variable (hconflict : a.conflict? = none)
include hconflict

omit hread in
theorem refusal?_of_command (d : Disk) : a.refusal? Disk.volume d =
    (Arguments.folderRefusal? c.folder (d.status c.folder), d) := by
  rw [Arguments.refusal?, hinit, hcommand, hconflict]
  rfl

theorem run_of_folderRefusal {r : Refusal}
    (hrefused : Arguments.folderRefusal? c.folder (d.status c.folder) = some r) :
    run Disk.volume env words d = (.ofFailure (.refused r), d) :=
  run_of_refused hread (by rw [refusal?_of_command hinit hcommand hconflict, hrefused])

theorem run_of_unresolved {settings : Settings} {fault : Fault}
    (hfolder : d.status c.folder = .ok .folder)
    (hloaded : loadSettings Disk.volume a d = (.ok settings, d))
    (hfault : d.resolve c.folder = .error fault) :
    run Disk.volume env words d = (.ofFailure (.unresolved c.folder fault), d) := by
  have haccepted : a.refusal? Disk.volume d = (none, d) := by
    rw [refusal?_of_command hinit hcommand hconflict,
      Arguments.folderRefusal?_eq_none_iff.2 hfolder]
  rw [run_of_accepted hread hinit hcommand haccepted, carryOut, Disk.bind_apply, hloaded]
  dsimp only
  rw [Disk.bind_apply, Disk.volume_resolve, hfault]
  rfl

/-- Nothing stands in the way of a command for a folder that has a path. -/
theorem Disk.Proper.ready (hd : d.Proper) {p : Place} {settings : Settings}
    (hloaded : loadSettings volume a d = (.ok settings, d))
    (hlocate : d.locate false c.folder = .ok p) (hp : d.find? p = some .folder)
    (hpath : Path.fault? (pathOf p) = none) : Ready d env words a c settings (pathOf p) where
  read := hread
  command := hcommand
  accepted := by
    rw [refusal?_of_command hinit hcommand hconflict]
    exact Arguments.folderRefusal?_eq_none_iff.2 (status_eq_folder_iff.2 ⟨p, hlocate, hp⟩)
  loaded := by rw [hloaded]
  resolved := by rw [resolve_of_locate hlocate, hpath]
  listed := ⟨_, names_eq_ok_iff.2 ⟨p, hd.locate_pathOf hp hpath, hp, rfl⟩⟩

/-- Where the starter document makes no difference for the folder, a command comes to the same
folder with the same settings, and its reports are the same unless one of them is the document. -/
theorem Disk.Proper.run_started_of_same (hd : d.Proper) (h : d.find? d.settingsPlace = none)
    (hconfig : a.config = none)
    (hunlisted : ∀ folder, d.resolve c.folder = .ok folder →
      d.started.Unlisted d.settingsPlace folder (suffixOf .default a c))
    (hsame : d.started.locate false c.folder = d.locate false c.folder) :
    (run volume env words d.started).1 = (run volume env words d).1 := by
  have hstatus := status_started_of_same h hsame
  cases hrefused : Arguments.folderRefusal? c.folder (d.status c.folder) with
  | some r =>
    have hrefused' := hrefused
    rw [← hstatus] at hrefused'
    rw [run_of_folderRefusal hread hinit hcommand hconflict hrefused,
      run_of_folderRefusal hread hinit hcommand hconflict hrefused']
  | none =>
    have hfolder := Arguments.folderRefusal?_eq_none_iff.1 hrefused
    obtain ⟨p, hlocate, hp⟩ := status_eq_folder_iff.1 hfolder
    have hlocate' := hsame.trans hlocate
    have hload := loadSettings_of_standing hconfig (standingSettings_of_absent hd h)
    have hload' := loadSettings_of_standing hconfig (standingSettings_started hd h)
    have hresolve := resolve_of_locate hlocate
    have hresolve' := resolve_of_locate hlocate'
    cases hpath : Path.fault? (pathOf p) with
    | some fault =>
      rw [hpath] at hresolve hresolve'
      rw [run_of_unresolved hread hinit hcommand hconflict hfolder hload hresolve,
        run_of_unresolved hread hinit hcommand hconflict (hstatus.trans hfolder) hload' hresolve']
    | none =>
      rw [hpath] at hresolve
      have hp' : d.started.find? p = some .folder :=
        find?_put_of_folder d.settingsPlace_ne_nil h hp _
      have hready := hd.ready hread hinit hcommand hconflict hload hlocate hp hpath
      have hready' :=
        (hd.started h).ready hread hinit hcommand hconflict hload' hlocate' hp' hpath
      obtain ⟨names, hnames⟩ := hready.listed
      obtain ⟨reports, hreports⟩ := exists_isListing hnames (suffixOf .default a c)
      have hreports' : d.started.IsListing (pathOf p) (suffixOf .default a c) reports :=
        hreports.put hd d.settingsPlace_ne_nil h (hd.started h) hp hpath (hunlisted _ hresolve)
      rw [hready.run hinit hreports, hready'.run hinit hreports']

omit hconflict in
/-- A report command says the same with the starter document as without any settings. Only where the
folder itself leads to the new document the reason for refusing it is another one. -/
theorem Disk.Proper.run_started (hd : d.Proper) (h : d.find? d.settingsPlace = none)
    (hconfig : a.config = none)
    (hunlisted : ∀ folder, d.resolve c.folder = .ok folder →
      d.started.Unlisted d.settingsPlace folder (suffixOf .default a c)) :
    (run volume env words d.started).1.code = (run volume env words d).1.code ∧
      (run volume env words d.started).1.output = (run volume env words d).1.output ∧
      (d.started.locate false c.folder ≠ .ok d.settingsPlace →
        (run volume env words d.started).1 = (run volume env words d).1) := by
  cases hconflict : a.conflict? with
  | some r =>
    have hrefused := refusal?_of_conflict hinit hcommand hconflict
    rw [run_of_refused hread (hrefused d), run_of_refused hread (hrefused d.started)]
    exact ⟨rfl, rfl, fun _ => rfl⟩
  | none =>
    have hlocate : d.started.locate false c.folder = d.locate false c.folder ∨
        StopsAt d.settingsPlace (d.locate false c.folder) (d.started.locate false c.folder) :=
      locate_put hd d.settingsPlace_ne_nil h _ c.folder
    rcases hlocate with hsame | ⟨hbefore, hafter⟩
    · have hrun := hd.run_started_of_same hread hinit hcommand hconflict h hconfig hunlisted hsame
      rw [hrun]
      exact ⟨rfl, rfl, fun _ => rfl⟩
    · have hrefused : Arguments.folderRefusal? c.folder (d.status c.folder) =
          some (.noFolder c.folder) := by
        rw [status_of_locate_eq_error hbefore]
        rfl
      rw [run_of_folderRefusal hread hinit hcommand hconflict hrefused]
      rcases hafter with hafter | hafter
      · have hrefused' : Arguments.folderRefusal? c.folder (d.started.status c.folder) =
            some (.notFolder c.folder) := by
          rw [status, hafter]
          simp only [bind, Except.bind, find?_started]
          rfl
        rw [run_of_folderRefusal hread hinit hcommand hconflict hrefused']
        exact ⟨rfl, rfl, fun hne => absurd hafter hne⟩
      · have hrefused' : Arguments.folderRefusal? c.folder (d.started.status c.folder) =
            some (.noFolder c.folder) := by
          rw [status_of_locate_eq_error hafter]
          rfl
        rw [run_of_folderRefusal hread hinit hcommand hconflict hrefused']
        exact ⟨rfl, rfl, fun _ => rfl⟩

end

/-! ## The working folder -/

theorem proper_workDisk : workDisk.Proper :=
  .of_items (by decide +kernel) (by decide +kernel)

theorem absent_workDisk : workDisk.find? workDisk.settingsPlace = none := by
  decide +kernel

/-- The working folder has no links, so only the document itself could be a report more. -/
theorem unlisted_workDisk :
    workDisk.started.Unlisted workDisk.settingsPlace "/w".toList ".txt".toList := by
  have hlink (name target : Text) : workDisk.find? ([['w']] ++ [name]) ≠ some (.link target) := by
    intro h
    have hmem := Disk.mem_items_of_find? (by simp) h
    simp [workDisk] at hmem
  refine Disk.unlisted_put workDisk.settingsPlace_ne_nil absent_workDisk
    (proper_workDisk.started absent_workDisk) proper_workDisk.here (by decide +kernel) hlink ?_
  intro name hname
  obtain rfl : settingsPath = name := by simpa [Disk.settingsPlace] using hname
  decide +kernel

/-! ## One file, written once -/

/-- Runs destroy no file. Unless the starter document is asked for, a run leaves the disk as it is.
A request for it writes the document where nothing stands in its place, and fails otherwise. So the
document is written once at most, however many runs there are.

Once it is written nothing else has changed, and every report command without settings of its own
says what it has said before, unless a report of the folder is the document, by a link to it or by
its own name. -/
theorem starter_of_runs (hd : d.Proper) (hlink : d.NotDangling) :
    (∀ r : Request, (∀ a, CommandLine.read r.env r.words = .ok a → a.initConfig = false) →
      d.after r = d) ∧
    (∀ env words a, CommandLine.read env words = .ok a → a.initConfig = true →
      (d.find? d.settingsPlace = none → run Disk.volume env words d =
        ({ code := 0, output := "Created .scopestats.toml with default settings.\n".toList },
          d.started)) ∧
      ((d.find? d.settingsPlace).isSome → run Disk.volume env words d =
        ({ code := 1
           errors := "Error: .scopestats.toml already exists. ".toList ++
            "Remove it first or edit it manually.\n".toList }, d))) ∧
    (∀ rs, ∃ n m, n + m = rs.length ∧ (0 < m → d.find? d.settingsPlace = none) ∧
      d.history rs = List.replicate (n + 1) d ++ List.replicate m d.started) ∧
    (d.find? d.settingsPlace = none →
      d.started.fileBytes? settingsPath = some (Utf8.encode Settings.starter) ∧
      (∀ path bytes, d.fileBytes? path = some bytes → d.started.fileBytes? path = some bytes) ∧
      (∀ p, p ≠ d.settingsPlace → d.started.find? p = d.find? p) ∧
      ∀ words a c, CommandLine.read none words = .ok a → a.initConfig = false →
        a.command = some c → a.config = none →
        (∀ folder, d.resolve c.folder = .ok folder →
          d.started.Unlisted d.settingsPlace folder (suffixOf .default a c)) →
        (run Disk.volume none words d.started).1.code = (run Disk.volume none words d).1.code ∧
        (run Disk.volume none words d.started).1.output =
          (run Disk.volume none words d).1.output ∧
        (d.started.locate false c.folder ≠ .ok d.settingsPlace →
          (run Disk.volume none words d.started).1 = (run Disk.volume none words d).1)) := by
  refine ⟨fun r hr => (looks_run hr).keeps d,
    fun env words a hread hinit => ⟨fun h => hd.run_of_absent h hread hinit,
      fun h => hd.run_of_present hlink h hread hinit⟩,
    hd.history_eq hlink, fun h => ⟨hd.fileBytes?_started h, fun path bytes => ?_, fun p hp => ?_,
      fun words a c hread hinit hcommand hconfig hunlisted => ?_⟩⟩
  · exact Disk.fileBytes?_put_of_eq_some hd d.settingsPlace_ne_nil h
  · rw [d.find?_started, if_neg hp]
  · exact hd.run_started hread hinit hcommand h hconfig hunlisted

/-- In the working folder the starter document is written, and is no report of it. -/
theorem starter_of_workDisk : workDisk.Proper ∧ workDisk.NotDangling ∧
    workDisk.find? workDisk.settingsPlace = none ∧
    run Disk.volume none ["--init-config".toList] workDisk =
      ({ code := 0, output := "Created .scopestats.toml with default settings.\n".toList },
        workDisk.started) ∧
    run Disk.volume none ["--init-config".toList] workDisk.started =
      ({ code := 1
         errors := "Error: .scopestats.toml already exists. ".toList ++
          "Remove it first or edit it manually.\n".toList }, workDisk.started) ∧
    (run Disk.volume none ["mappings".toList, ['.']] workDisk.started).1 =
      (run Disk.volume none ["mappings".toList, ['.']] workDisk).1 := by
  have hlink := Disk.notDangling_of_absent absent_workDisk
  have hinit : CommandLine.read none ["--init-config".toList] = .ok { initConfig := true } := by
    decide +kernel
  have hread : CommandLine.read none ["mappings".toList, ['.']] =
      .ok { command := some ⟨.mappings, ['.'], none⟩ } := by
    decide +kernel
  have hresolve : workDisk.resolve ['.'] = .ok "/w".toList := by cbv
  have hlocate : workDisk.locate false ['.'] = .ok [['w']] := by cbv
  obtain ⟨-, hwrites, -, hafter⟩ := starter_of_runs proper_workDisk hlink
  obtain ⟨-, hrefuses, -, -⟩ :=
    starter_of_runs (proper_workDisk.started absent_workDisk) workDisk.notDangling_started
  obtain ⟨-, -, -, hreports⟩ := hafter absent_workDisk
  refine ⟨proper_workDisk, hlink, absent_workDisk, (hwrites _ _ _ hinit rfl).1 absent_workDisk,
    (hrefuses _ _ _ hinit rfl).2 (by rw [Disk.find?_started_settingsPlace]; rfl), ?_⟩
  refine (hreports _ _ _ hread rfl rfl rfl fun folder hfolder => ?_).2.2 fun hstarter => ?_
  · rw [hresolve] at hfolder
    cases hfolder
    exact unlisted_workDisk
  · -- the folder was there before, so it does not lead to the new document
    have hbefore : workDisk.started.locate false ['.'] = workDisk.locate false ['.'] := by
      refine (Disk.locate_put proper_workDisk workDisk.settingsPlace_ne_nil absent_workDisk _
        ['.']).resolve_right ?_
      rintro ⟨hnone, -⟩
      rw [hlocate] at hnone
      cases hnone
    rw [hbefore, hlocate] at hstarter
    revert hstarter
    decide +kernel

/-! ## A link to the starter document -/

theorem Disk.Proper.locate_here (hd : d.Proper) : d.locate false ['.'] = .ok d.here := by
  have hfault : Path.fault? ['.'] = none := by decide +kernel
  have hroot : Path.isAbsolute ['.'] = false := by decide +kernel
  have hnames : Path.names ['.'] = [['.']] := by decide +kernel
  rw [locate, origin, hfault, hroot, hnames, hd.here]
  show d.follow false linkLimit d.here [['.']] = _
  simp [follow, hd.here]

/-- A working folder with a link to where the starter document is going to be. -/
def linkedDisk : Disk where
  items := [(["w".toList, "a.txt".toList], .link settingsPath), (["w".toList], .folder)]
  here := ["w".toList]

theorem isListing_linkedDisk : linkedDisk.IsListing "/w".toList ".txt".toList [] := by
  have hnames : linkedDisk.names "/w".toList = .ok ["a.txt".toList] := by cbv
  have hreports : (Disk.candidates ".txt".toList ["a.txt".toList]).filterMap
      (linkedDisk.report? "/w".toList) = [] := by
    cbv
  rw [← hreports]
  exact Disk.isListing_candidates hnames

theorem isListing_linkedDisk_started : linkedDisk.started.IsListing "/w".toList ".txt".toList
    [⟨"a.txt".toList, Settings.starter⟩] := by
  -- What the new file holds does not matter for the way to it.
  have hnames (bytes : Bytes) : (linkedDisk.put linkedDisk.settingsPlace (.file bytes)).names
      "/w".toList = .ok [settingsPath, "a.txt".toList] := by
    cbv
  have hlocate (bytes : Bytes) : (linkedDisk.put linkedDisk.settingsPlace (.file bytes)).locate
      false (Path.join "/w".toList "a.txt".toList) = .ok linkedDisk.settingsPlace := by
    cbv
  have hcandidates : Disk.candidates ".txt".toList [settingsPath, "a.txt".toList] =
      ["a.txt".toList] := by
    cbv
  have hreport : linkedDisk.started.report? "/w".toList "a.txt".toList =
      some ⟨"a.txt".toList, Settings.starter⟩ :=
    Disk.report?_eq_some_iff.2 ⟨rfl, _, Disk.fileBytes?_eq_some_iff.2 ⟨_, hlocate _,
      linkedDisk.find?_started_settingsPlace⟩, (Utf8.decode_encode _).symm⟩
  have hreports : (Disk.candidates ".txt".toList [settingsPath, "a.txt".toList]).filterMap
      (linkedDisk.started.report? "/w".toList) = [⟨"a.txt".toList, Settings.starter⟩] := by
    rw [hcandidates, List.filterMap_cons, hreport]
    rfl
  rw [← hreports]
  exact Disk.isListing_candidates (hnames _)

/-- Through the link the starter document is a report, although its own name does not end as the
names of reports do. -/
theorem output_of_linkedDisk : linkedDisk.Proper ∧ linkedDisk.NotDangling ∧
    linkedDisk.find? linkedDisk.settingsPlace = none ∧
    run Disk.volume none ["--init-config".toList] linkedDisk =
      ({ code := 0, output := "Created .scopestats.toml with default settings.\n".toList },
        linkedDisk.started) ∧
    ∃ a c, CommandLine.read none ["mappings".toList, ['.']] = .ok a ∧ a.initConfig = false ∧
      a.command = some c ∧ a.config = none ∧ ¬suffixOf .default a c <:+ settingsPath ∧
      (run Disk.volume none ["mappings".toList, ['.']] linkedDisk.started).1.output ≠
        (run Disk.volume none ["mappings".toList, ['.']] linkedDisk).1.output := by
  have hd : linkedDisk.Proper := .of_items (by decide +kernel) (by decide +kernel)
  have habsent : linkedDisk.find? linkedDisk.settingsPlace = none := by decide +kernel
  have hinit : CommandLine.read none ["--init-config".toList] = .ok { initConfig := true } := by
    decide +kernel
  have hread : CommandLine.read none ["mappings".toList, ['.']] =
      .ok { command := some ⟨.mappings, ['.'], none⟩ } := by
    decide +kernel
  have hready := hd.ready hread rfl rfl rfl
    (loadSettings_of_standing rfl (Disk.standingSettings_of_absent hd habsent))
    hd.locate_here hd.here (by decide +kernel)
  have hready' := (hd.started habsent).ready hread rfl rfl rfl
    (loadSettings_of_standing rfl (Disk.standingSettings_started hd habsent))
    (hd.started habsent).locate_here (hd.started habsent).here (by decide +kernel)
  refine ⟨hd, Disk.notDangling_of_absent habsent, habsent, hd.run_of_absent habsent hinit rfl, _, _,
    hread, rfl, rfl, rfl, by decide +kernel, ?_⟩
  have hrun := hready.run rfl isListing_linkedDisk
  have hrun' := hready'.run rfl isListing_linkedDisk_started
  rw [hrun, hrun']
  decide +kernel

end ReportTally
