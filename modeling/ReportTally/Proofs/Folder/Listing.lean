import ReportTally.Folder.Report
import ReportTally.Proofs.Folder.Disk
import ReportTally.Proofs.Report.Feeding
import ReportTally.Proofs.Text.Order

/-!
# The reports of a folder on a disk

`Disk.IsListing` says without an algorithm which reports a folder has: each file in it whose name
ends with the suffix, once, in the order of the bytes of the names. There is one such list for
every folder that can be listed (`exists_isListing`, `IsListing.unique`), and a summary of the
folder is the summary of these reports (`Folder.summarize_volume`).

Listing, reading and summarizing only look at a disk (`Folder.looks_summarize`).
-/

namespace ReportTally

variable {d d' : Disk} {folder suffix : Text} {rules : Rules}

/-! ## Listings -/

namespace Disk

/-- The reports are the files in the folder whose names end with the suffix, in the order of the
bytes of their names. -/
structure IsListing (d : Disk) (folder suffix : Text) (reports : List Named) : Prop where
  /-- The names increase, so there is none twice. -/
  sorted : reports.Pairwise fun r s => Utf8.encode r.name < Utf8.encode s.name
  /-- All such files are reports, and nothing else is. -/
  mem_iff : ∀ r, r ∈ reports ↔ suffix <:+ r.name ∧ d.Holds folder r.name ∧
    ∃ bytes, d.fileBytes? (Path.join folder r.name) = some bytes ∧ r.contents = Utf8.decode bytes

theorem IsListing.unique {reports reports' : List Named} (h : d.IsListing folder suffix reports)
    (h' : d.IsListing folder suffix reports') : reports = reports' := by
  have hnodup : ∀ {rs : List Named}, d.IsListing folder suffix rs → rs.Nodup := by
    intro rs hrs
    refine hrs.sorted.imp ?_
    rintro r s hlt rfl
    exact List.lt_irrefl _ hlt
  have hperm : reports.Perm reports' := by
    rw [List.perm_ext_iff_of_nodup (hnodup h) (hnodup h')]
    exact fun r => (h.mem_iff r).trans (h'.mem_iff r).symm
  refine hperm.eq_of_pairwise (fun r s _ _ hrs hsr => ?_) h.sorted h'.sorted
  exact absurd hsr (List.lt_asymm hrs)

/-- The report of this name, if it is a file. -/
def report? (d : Disk) (folder name : Text) : Option Named :=
  (d.fileBytes? (Path.join folder name)).map fun bytes => ⟨name, Utf8.decode bytes⟩

theorem report?_eq_some_iff {name : Text} {r : Named} : d.report? folder name = some r ↔
    name = r.name ∧
      ∃ bytes, d.fileBytes? (Path.join folder r.name) = some bytes ∧
        r.contents = Utf8.decode bytes := by
  obtain ⟨rname, contents⟩ := r
  simp only [report?, Option.map_eq_some_iff, Named.mk.injEq]
  constructor
  · rintro ⟨bytes, hbytes, rfl, rfl⟩
    exact ⟨rfl, bytes, hbytes, rfl⟩
  · rintro ⟨rfl, bytes, hbytes, rfl⟩
    exact ⟨bytes, hbytes, rfl, rfl⟩

/-- The names that end with the suffix, sorted. -/
def candidates (suffix : Text) (names : List Text) : List Text :=
  (names.filter (ReportFile.matches_ suffix)).mergeSort Text.le

theorem candidates_of_perm {names names' : List Text} (h : names'.Perm names) (suffix : Text) :
    candidates suffix names' = candidates suffix names := by
  have hperm : (candidates suffix names').Perm (candidates suffix names) :=
    (List.mergeSort_perm _ _).trans ((h.filter _).trans (List.mergeSort_perm _ _).symm)
  have hsorted : ∀ names, (candidates suffix names).Pairwise fun s t => Text.le s t = true :=
    fun names => List.pairwise_mergeSort Text.le_trans Text.le_total _
  exact hperm.eq_of_pairwise (fun s t _ _ => Text.le_antisymm) (hsorted names') (hsorted names)

theorem sorted_candidates {names : List Text} (h : names.Nodup) :
    (candidates suffix names).Pairwise fun s t => Utf8.encode s < Utf8.encode t := by
  have hperm := List.mergeSort_perm (names.filter (ReportFile.matches_ suffix)) Text.le
  have hnodup : (candidates suffix names).Nodup := hperm.nodup_iff.2 (h.filter _)
  have hle : (candidates suffix names).Pairwise fun s t => Text.le s t = true :=
    List.pairwise_mergeSort Text.le_trans Text.le_total _
  refine (hle.and hnodup).imp ?_
  exact fun ⟨hle, hne⟩ => Utf8.encode_lt_encode (Text.lt_of_le_of_ne hle hne)

section

variable {α : Type} {get : Text → Option α} {nameOf : α → Text}
  (hget : ∀ {name a}, get name = some a → nameOf a = name)
include hget

theorem pairwise_filterMap_candidates {names : List Text} (h : names.Nodup) :
    ((candidates suffix names).filterMap get).Pairwise fun a b =>
      Utf8.encode (nameOf a) < Utf8.encode (nameOf b) := by
  refine (sorted_candidates h).filterMap _ ?_
  intro s t hst a ha b hb
  rwa [hget ha, hget hb]

theorem mem_filterMap_candidates {names : List Text} (h : d.names folder = .ok names) {a : α} :
    a ∈ (candidates suffix names).filterMap get ↔
      suffix <:+ nameOf a ∧ d.Holds folder (nameOf a) ∧ get (nameOf a) = some a := by
  have hname (name : Text) : name ∈ candidates suffix names ↔
      suffix <:+ name ∧ d.Holds folder name := by
    rw [candidates, List.mem_mergeSort, List.mem_filter, mem_of_names h, ReportFile.matches_,
      List.isSuffixOf_iff_suffix, and_comm]
  simp only [List.mem_filterMap, hname]
  constructor
  · rintro ⟨name, ⟨hsuffix, hholds⟩, ha⟩
    obtain rfl := hget ha
    exact ⟨hsuffix, hholds, ha⟩
  · rintro ⟨hsuffix, hholds, ha⟩
    exact ⟨nameOf a, ⟨hsuffix, hholds⟩, ha⟩

end

theorem isListing_candidates {names : List Text} (h : d.names folder = .ok names) :
    d.IsListing folder suffix ((candidates suffix names).filterMap (d.report? folder)) where
  sorted := pairwise_filterMap_candidates (fun hr => (report?_eq_some_iff.1 hr).1.symm)
    (nodup_of_names h)
  mem_iff r := by
    rw [mem_filterMap_candidates (fun hr => (report?_eq_some_iff.1 hr).1.symm) h,
      report?_eq_some_iff, and_iff_right rfl]

/-- A folder that can be listed has a listing. -/
theorem exists_isListing {names : List Text} (h : d.names folder = .ok names) (suffix : Text) :
    ∃ reports, d.IsListing folder suffix reports :=
  ⟨_, isListing_candidates h⟩

end Disk

/-! ## Listing and reading -/

namespace ReportFile

/-- The file of this name, if it is one. -/
def ofDisk? (d : Disk) (folder name : Text) : Option ReportFile :=
  (d.fileBytes? (Path.join folder name)).map fun bytes =>
    ⟨name, Path.join folder name, bytes.length⟩

theorem find?_volume (d : Disk) (folder name : Text) :
    find? Disk.volume folder name d = (ofDisk? d folder name, d) := by
  rw [find?, Disk.bind_apply, Disk.volume_status, ofDisk?]
  cases hbytes : d.fileBytes? (Path.join folder name) with
  | some bytes =>
    rw [Disk.status_eq_file_iff.2 ⟨bytes, hbytes, rfl⟩]
    rfl
  | none =>
    have hno : ∀ size, d.status (Path.join folder name) ≠ .ok (.file size) := by
      intro size hsize
      obtain ⟨bytes, hsome, -⟩ := Disk.status_eq_file_iff.1 hsize
      rw [hbytes] at hsome
      cases hsome
    cases hstatus : d.status (Path.join folder name) with
    | error fault => rfl
    | ok s =>
      cases s with
      | file size => exact absurd hstatus (hno size)
      | folder => rfl
      | special => rfl

theorem findAll_volume (d : Disk) (folder : Text) (names : List Text) :
    findAll Disk.volume folder names d = (names.filterMap (ofDisk? d folder), d) := by
  induction names with
  | nil => rfl
  | cons name names ih =>
    rw [findAll, Disk.bind_apply, find?_volume, Disk.bind_apply, ih, List.filterMap_cons]
    cases ofDisk? d folder name <;> rfl

theorem list_volume {names : List Text} (h : d.names folder = .ok names) :
    list Disk.volume folder suffix d =
      (.ok ((Disk.candidates suffix names).filterMap (ofDisk? d folder)), d) := by
  rw [list, Disk.bind_apply, Disk.volume_status, Disk.status_of_names h]
  dsimp only
  rw [Disk.bind_apply, Disk.volume_names, h]
  dsimp only
  rw [Disk.bind_apply, ← Disk.candidates, findAll_volume]
  rfl

theorem looks_find? (folder name : Text) : Disk.Looks (find? Disk.volume folder name) := by
  refine (Disk.Looks.status _).bind fun r => ?_
  split <;> exact Disk.Looks.pure _

theorem looks_findAll (folder : Text) (names : List Text) :
    Disk.Looks (findAll Disk.volume folder names) := by
  induction names with
  | nil => exact Disk.Looks.pure _
  | cons name names ih =>
    exact (looks_find? folder name).bind fun _ => ih.bind fun _ => Disk.Looks.pure _

theorem looks_list (folder suffix : Text) : Disk.Looks (list Disk.volume folder suffix) := by
  refine (Disk.Looks.status folder).bind fun r => ?_
  split
  · exact Disk.Looks.pure _
  · refine Disk.Looks.names_bind (fun r => ?_) (fun names names' h => ?_) folder
    · split
      · exact Disk.Looks.pure _
      · exact (looks_findAll folder _).bind fun _ => Disk.Looks.pure _
    · dsimp only
      rw [← Disk.candidates, Disk.candidates_of_perm h, Disk.candidates]
  · exact Disk.Looks.pure _

theorem looks_contents (file : ReportFile) : Disk.Looks (file.contents Disk.volume) :=
  (Disk.Looks.read _).bind fun _ => Disk.Looks.pure _

end ReportFile

/-! ## Summaries -/

namespace Folder

theorem feed_volume (d : Disk) (folder : Text) (tally : Tally) (names : List Text) :
    feed Disk.volume rules tally (names.filterMap (ReportFile.ofDisk? d folder)) d =
      ((feedAll rules tally (names.filterMap (d.report? folder))).mapError fun x =>
        .flawed (Path.join folder x.1.name) x.2, d) := by
  induction names generalizing tally with
  | nil => rfl
  | cons name names ih =>
    rw [List.filterMap_cons, List.filterMap_cons, ReportFile.ofDisk?, Disk.report?]
    cases hbytes : d.fileBytes? (Path.join folder name) with
    | none => exact ih tally
    | some bytes =>
      dsimp only [Option.map_some]
      rw [feed, feedAll, Disk.bind_apply, ReportFile.contents, Disk.bind_apply, Disk.volume_read,
        Disk.read_of_fileBytes? hbytes]
      dsimp only [pure, Except.map, StateT.pure]
      cases tally.feed rules name (Utf8.decode bytes) with
      | error flaw => rfl
      | ok tally => exact ih tally

/-- The summary of a folder is the one of its reports, and the first one that is rejected is named
by its path. -/
theorem summarize_volume {names : List Text} (h : d.names folder = .ok names) {reports : List Named}
    (hreports : d.IsListing folder suffix reports) (rules : Rules) (kind : Kind) :
    summarize Disk.volume rules kind suffix folder d =
      ((ReportTally.summarize rules kind folder reports).mapError fun x =>
        .flawed (Path.join folder x.1.name) x.2, d) := by
  obtain rfl := hreports.unique (Disk.isListing_candidates h)
  rw [summarize, Disk.bind_apply, ReportFile.list_volume h]
  dsimp only
  rw [Disk.bind_apply, feed_volume, ReportTally.summarize]
  cases feedAll rules (.start kind) _ <;> rfl

theorem looks_feed (tally : Tally) (files : List ReportFile) :
    Disk.Looks (feed Disk.volume rules tally files) := by
  induction files generalizing tally with
  | nil => exact Disk.Looks.pure _
  | cons file files ih =>
    refine (ReportFile.looks_contents file).bind fun r => ?_
    split
    · exact Disk.Looks.pure _
    · split
      · exact Disk.Looks.pure _
      · exact ih _

theorem looks_summarize (kind : Kind) (suffix folder : Text) :
    Disk.Looks (summarize Disk.volume rules kind suffix folder) := by
  refine (ReportFile.looks_list folder suffix).bind fun r => ?_
  split
  · exact Disk.Looks.pure _
  · refine (looks_feed _ _).bind fun r => ?_
    split <;> exact Disk.Looks.pure _

end Folder

end ReportTally
