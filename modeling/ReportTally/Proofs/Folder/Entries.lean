import Mathlib
import ReportTally.Proofs.Folder.Listing
import ReportTally.Proofs.Folder.Paths

/-!
# Which entries of a folder are reports

The path of a name in a folder is walked as the path of the folder, and then the walk goes on with
the name (`exists_locate_join`): a walk that ends in a folder goes on from there with the links that
are left (`exists_follow_append`). So the path of an entry leads to a file just if the entry is a
file or a link that leads to one (`IsFileEntry`). Folders, devices and other links are no reports.

A folder may list its names in any order (`shuffled`). They are sorted before they are looked at, so
the order does not count (`ReportFile.list_shuffled`). `listing_of_folder` puts this together.
-/

namespace ReportTally

/-! ## Paths of entries -/

theorem Text.fields_append (sep : Char) (a b : Text) :
    fields sep (a ++ sep :: b) = fields sep a ++ fields sep b := by
  induction a with
  | nil => rw [List.nil_append, fields_cons, if_pos rfl, fields_nil, List.singleton_append]
  | cons c a ih =>
    obtain ⟨t, ts, hts⟩ := List.exists_cons_of_ne_nil (fields_ne_nil sep a)
    rw [List.cons_append, fields_cons, fields_cons, ih, hts]
    split_ifs <;> rfl

/-- The path of a name in a folder goes through the names of the folder, but for an empty one at
their end, and then through this name. -/
theorem Path.names_join {folder : Text} (hfolder : folder ≠ []) :
    ∃ ns n, names folder = ns ++ List.replicate n [] ∧
      ∀ name, '/' ∉ name → names (join folder name) = ns ++ [name] := by
  obtain ⟨u, c, rfl⟩ := (List.eq_nil_or_concat' folder).resolve_left hfolder
  by_cases hc : c = '/'
  · subst hc
    refine ⟨names u, 1, Text.fields_append '/' u [], fun name hname => ?_⟩
    have hjoin : join (u ++ ['/']) name = u ++ '/' :: name := by simp [join]
    rw [hjoin, names, Text.fields_append, Text.fields_of_not_mem hname, names]
  · refine ⟨names (u ++ [c]), 0, (List.append_nil _).symm, fun name hname => ?_⟩
    have hjoin : join (u ++ [c]) name = (u ++ [c]) ++ '/' :: name := by simp [join]
    rw [hjoin, names, Text.fields_append, Text.fields_of_not_mem hname, names]

theorem Path.isAbsolute_join {folder : Text} (hfolder : folder ≠ []) (name : Text) :
    isAbsolute (join folder name) = isAbsolute folder := by
  obtain ⟨c, u, rfl⟩ := List.exists_cons_of_ne_nil hfolder
  unfold join isAbsolute
  split <;> rfl

namespace Disk

variable {d : Disk} {p q : Place} {folder name suffix : Text} {bytes : Bytes}

theorem follow_replicate_nil (d : Disk) (links : Nat) (at_ : Place) (n : Nat) :
    d.follow false links at_ (List.replicate n []) = d.follow false links at_ [] := by
  induction n with
  | zero => rfl
  | succ n ih =>
    rw [List.replicate_succ, ← ih]
    conv_lhs => rw [follow]
    rfl

/-- A walk that ends in a folder, but for empty names at its end, goes on from there, through the
links that are left. -/
theorem exists_follow_append {links : Nat} {at_ : Place} {xs : List Text} {n : Nat}
    (h : d.follow false links at_ (xs ++ List.replicate n []) = .ok q)
    (hq : d.find? q = some .folder) :
    ∃ left ≤ links, ∀ rest, d.follow false links at_ (xs ++ rest) = d.follow false left q rest := by
  match xs with
  | [] =>
    rw [List.nil_append, follow_replicate_nil, follow] at h
    split_ifs at h
    cases h
    exact ⟨links, Nat.le_refl links, fun rest => rfl⟩
  | name :: xs =>
    rw [List.cons_append] at h
    rcases step_cases name with hstep | hstep | hstep | hname
    · rw [hstep] at h
      obtain ⟨left, hle, hrest⟩ := exists_follow_append h hq
      exact ⟨left, hle, fun rest => by rw [List.cons_append, hstep, hrest]⟩
    · rw [hstep] at h
      obtain ⟨left, hle, hrest⟩ := exists_follow_append h hq
      exact ⟨left, hle, fun rest => by rw [List.cons_append, hstep, hrest]⟩
    · rw [hstep] at h
      cases h
    · rw [follow_cons hname] at h
      split at h
      · cases h
      · next hfind =>
        obtain ⟨left, hle, hrest⟩ := exists_follow_append h hq
        exact ⟨left, hle, fun rest => by rw [List.cons_append, follow_cons hname, hfind, ← hrest]⟩
      · cases h
      · next hfind =>
        rw [← List.append_assoc] at h
        obtain ⟨left, hle, hrest⟩ := exists_follow_append h hq
        refine ⟨left, hle.trans (Nat.le_succ _), fun rest => ?_⟩
        rw [List.cons_append, follow_cons hname, hfind, ← hrest, List.append_assoc]
      · next hfolder hi _ _ =>
        -- The walk has ended at a file or a device.
        split_ifs at h
        cases h
        exact absurd (Option.some.inj (hi.symm.trans hq)) hfolder
termination_by (links, xs.length)

theorem ne_nil_of_fault?_eq_none {path : Text} (h : Path.fault? path = none) : path ≠ [] := by
  rintro rfl
  cases h

theorem origin_join (hfolder : folder ≠ []) {o : Place} (ho : d.origin folder = .ok o)
    (hjoin : Path.fault? (Path.join folder name) = none) :
    d.origin (Path.join folder name) = .ok o := by
  rw [origin, fault?_of_origin ho] at ho
  rw [origin, hjoin, Path.isAbsolute_join hfolder]
  exact ho

/-- The path of a name in a folder leads where the name leads from there, through the links that the
path of the folder has left. A path from the root that has no links has left all of them. -/
theorem exists_locate_join (hfolder : d.locate false folder = .ok p)
    (hp : d.find? p = some .folder) :
    ∃ left ≤ linkLimit, (d.Proper → folder = pathOf p → left = linkLimit) ∧
      ∀ name, Path.IsName name → Path.fault? (Path.join folder name) = none →
        d.locate false (Path.join folder name) = d.follow false left p [name] := by
  by_cases hroot : d.Proper ∧ folder = pathOf p
  · obtain ⟨hd, rfl⟩ := hroot
    exact ⟨linkLimit, Nat.le_refl _, fun _ _ => rfl, fun name => hd.locate_join hp⟩
  · obtain ⟨o, ho, hwalk⟩ := locate_eq_ok_iff.1 hfolder
    have hne := ne_nil_of_fault?_eq_none (fault?_of_origin ho)
    obtain ⟨ns, n, hnames, hjoin⟩ := Path.names_join hne
    rw [hnames] at hwalk
    obtain ⟨left, hle, hrest⟩ := exists_follow_append hwalk hp
    refine ⟨left, hle, fun hd hpath => absurd ⟨hd, hpath⟩ hroot, fun name hname hfault => ?_⟩
    rw [locate, origin_join hne ho hfault, hjoin name hname.2, ← hrest]
    rfl

/-! ## Entries that are files -/

/-- What stands under a name in a folder is a file with these bytes, or a link that leads to one, if
a path may go on through so many links. -/
def IsFileEntry (d : Disk) (links : Nat) (p : Place) (name : Text) (bytes : Bytes) : Prop :=
  d.find? (p ++ [name]) = some (.file bytes) ∨
    ∃ target q, d.find? (p ++ [name]) = some (.link target) ∧ 0 < links ∧
      d.follow false (links - 1) (if Path.isAbsolute target then [] else p) (Path.names target) =
        .ok q ∧
      d.find? q = some (.file bytes)

theorem IsFileEntry.isSome {links : Nat} (h : d.IsFileEntry links p name bytes) :
    (d.find? (p ++ [name])).isSome := by
  obtain hfile | ⟨target, q, hlink, -⟩ := h
  · rw [hfile]
    rfl
  · rw [hlink]
    rfl

theorem follow_singleton_iff (hname : Path.GoesDown name) (links : Nat) :
    (∃ q, d.follow false links p [name] = .ok q ∧ d.find? q = some (.file bytes)) ↔
      d.IsFileEntry links p name bytes := by
  rw [follow_cons hname, IsFileEntry]
  cases hfind : d.find? (p ++ [name]) with
  | none => simp
  | some i =>
    cases i with
    | file bytes' => simp [hfind]
    | folder => simp [follow, hfind]
    | device => simp [hfind]
    | link target =>
      cases links with
      | zero => simp
      | succ links => simp

/-- The path of an entry leads to a file just if the entry is one or a link that leads to one. -/
theorem exists_fileBytes?_iff (hfolder : d.locate false folder = .ok p)
    (hp : d.find? p = some .folder) :
    ∃ left ≤ linkLimit, (d.Proper → folder = pathOf p → left = linkLimit) ∧
      ∀ name bytes, Path.IsName name → Path.fault? (Path.join folder name) = none →
        (d.fileBytes? (Path.join folder name) = some bytes ↔ d.IsFileEntry left p name bytes) := by
  obtain ⟨left, hle, hroot, hlocate⟩ := exists_locate_join hfolder hp
  refine ⟨left, hle, hroot, fun name bytes hname hfault => ?_⟩
  rw [fileBytes?_eq_some_iff, hlocate name hname hfault, follow_singleton_iff hname.1]

/-! ## Folders in any order -/

/-- The disk as a volume whose folders list their names in another order. -/
def shuffled (order : List Text → List Text) : Volume (StateM Disk) :=
  { volume with names := fun path d => ((d.names path).map order, d) }

/-- The files are the entries of the folder whose names end with the suffix and whose paths lead to
a file, in the order of the bytes of their names. -/
structure IsScan (d : Disk) (folder suffix : Text) (files : List ReportFile) : Prop where
  /-- The names increase, so there is none twice. -/
  sorted : files.Pairwise fun f g => Utf8.encode f.name < Utf8.encode g.name
  /-- All such entries are there, each with its path and its size, and nothing else is. -/
  mem_iff : ∀ f, f ∈ files ↔ suffix <:+ f.name ∧ d.Holds folder f.name ∧
    f.path = Path.join folder f.name ∧
      ∃ bytes, d.fileBytes? f.path = some bytes ∧ f.size = bytes.length

end Disk

namespace ReportFile

variable {d : Disk} {folder suffix : Text}

theorem ofDisk?_eq_some_iff {name : Text} {f : ReportFile} : ofDisk? d folder name = some f ↔
    f.name = name ∧ f.path = Path.join folder name ∧
      ∃ bytes, d.fileBytes? f.path = some bytes ∧ f.size = bytes.length := by
  obtain ⟨fname, path, size⟩ := f
  simp only [ofDisk?, Option.map_eq_some_iff, ReportFile.mk.injEq]
  constructor
  · rintro ⟨bytes, hbytes, rfl, rfl, rfl⟩
    exact ⟨rfl, rfl, bytes, hbytes, rfl⟩
  · rintro ⟨rfl, rfl, bytes, hbytes, rfl⟩
    exact ⟨bytes, hbytes, rfl, rfl, rfl⟩

theorem isScan_candidates {names : List Text} (h : d.names folder = .ok names) (suffix : Text) :
    d.IsScan folder suffix ((Disk.candidates suffix names).filterMap (ofDisk? d folder)) where
  sorted := Disk.pairwise_filterMap_candidates (fun hf => (ofDisk?_eq_some_iff.1 hf).1)
    (Disk.nodup_of_names h)
  mem_iff f := by
    rw [Disk.mem_filterMap_candidates (fun hf => (ofDisk?_eq_some_iff.1 hf).1) h,
      ofDisk?_eq_some_iff, and_iff_right rfl]

theorem findAll_shuffled (order : List Text → List Text) (folder : Text) (names : List Text) :
    findAll (Disk.shuffled order) folder names = findAll Disk.volume folder names := by
  induction names with
  | nil => rfl
  | cons name names ih =>
    rw [findAll, findAll, ih]
    rfl

/-- The order in which a folder lists its names does not count. -/
theorem list_shuffled {order : List Text → List Text}
    (horder : ∀ names, (order names).Perm names) (folder suffix : Text) (d : Disk) :
    list (Disk.shuffled order) folder suffix d = list Disk.volume folder suffix d := by
  have hstatus : (Disk.shuffled order).status folder d = (d.status folder, d) := rfl
  have hnames : (Disk.shuffled order).names folder d = ((d.names folder).map order, d) := rfl
  rw [list, list, Disk.bind_apply, Disk.bind_apply, hstatus, Disk.volume_status]
  cases d.status folder with
  | error fault => rfl
  | ok s =>
    cases s with
    | file size => rfl
    | special => rfl
    | folder =>
      dsimp only
      rw [Disk.bind_apply, Disk.bind_apply, hnames, Disk.volume_names]
      cases d.names folder with
      | error fault => rfl
      | ok names =>
        dsimp only [Except.map]
        rw [Disk.bind_apply, Disk.bind_apply, findAll_shuffled, ← Disk.candidates,
          Disk.candidates_of_perm (horder names), Disk.candidates]

end ReportFile

/-- The reports of a folder are its entries whose names end with the suffix and whose paths lead to a
file, each once and in the order of the bytes of their names. The path of a report is that of its
name in the folder, and its size is the number of bytes that are read there. The order in which the
folder lists its names does not count. The path of an entry leads to a file just if the entry is a
file or a link that leads to one, unless the path is too long. -/
theorem listing_of_folder {d : Disk} {folder : Text} {p : Place}
    (hfolder : d.locate false folder = .ok p) (hp : d.find? p = some .folder) (suffix : Text) :
    ∃ files, d.IsScan folder suffix files ∧
      (∀ f ∈ files, ∃ bytes, d.read f.path = .ok bytes ∧ f.size = bytes.length) ∧
      (∀ order : List Text → List Text, (∀ names, (order names).Perm names) →
        ReportFile.list (Disk.shuffled order) folder suffix d = (.ok files, d)) ∧
      ∃ left ≤ Disk.linkLimit, (d.Proper → folder = Disk.pathOf p → left = Disk.linkLimit) ∧
        ∀ name, Path.IsName name → Path.fault? (Path.join folder name) = none →
          ∀ size, ⟨name, Path.join folder name, size⟩ ∈ files ↔
            suffix <:+ name ∧ ∃ bytes, d.IsFileEntry left p name bytes ∧ size = bytes.length := by
  have hnames : d.names folder = .ok (d.namesAt p) := Disk.names_eq_ok_iff.2 ⟨p, hfolder, hp, rfl⟩
  have hscan := ReportFile.isScan_candidates hnames suffix
  obtain ⟨left, hle, hroot, hentry⟩ := Disk.exists_fileBytes?_iff hfolder hp
  refine ⟨_, hscan, fun f hf => ?_, fun order horder => ?_, left, hle, hroot,
    fun name hname hfault size => ?_⟩
  · obtain ⟨-, -, -, bytes, hbytes, hsize⟩ := (hscan.mem_iff f).1 hf
    exact ⟨bytes, Disk.read_of_fileBytes? hbytes, hsize⟩
  · rw [ReportFile.list_shuffled horder, ReportFile.list_volume hnames]
  · rw [hscan.mem_iff]
    simp only [hentry name _ hname hfault]
    refine and_congr_right fun _ => ⟨fun h => h.2.2, ?_⟩
    rintro ⟨bytes, hbytes, hsize⟩
    exact ⟨⟨p, hfolder, hbytes.isSome⟩, trivial, bytes, hbytes, hsize⟩

/-- A folder with files, folders, and links to a file, to a folder and to nothing. -/
def mixedDisk : Disk where
  items :=
    [(["w".toList, "b.txt".toList], .file [0x62]),
      (["w".toList, "a.txt".toList], .link "s/x.txt".toList),
      (["w".toList, "c.txt".toList], .link "s".toList),
      (["w".toList, "d.txt".toList], .folder),
      (["w".toList, "e.txt".toList], .link "gone".toList),
      (["w".toList, "f.TXT".toList], .file []),
      (["w".toList, "s".toList, "x.txt".toList], .file [0x78, 0x79]),
      (["w".toList, "s".toList], .folder),
      (["w".toList], .folder)]
  here := ["w".toList]

/-- The file and the link to a file are reports, in whichever order the names are listed. -/
theorem listing_of_mixedDisk :
    mixedDisk.locate false "/w".toList = .ok ["w".toList] ∧
      mixedDisk.find? ["w".toList] = some .folder ∧
      ∃ files, mixedDisk.IsScan "/w".toList ".txt".toList files ∧
        ReportFile.list (Disk.shuffled List.reverse) "/w".toList ".txt".toList mixedDisk =
          (.ok files, mixedDisk) ∧
        files = [⟨"a.txt".toList, "/w/a.txt".toList, 2⟩, ⟨"b.txt".toList, "/w/b.txt".toList, 1⟩] := by
  have hfolder : mixedDisk.locate false "/w".toList = .ok ["w".toList] := by cbv
  have hp : mixedDisk.find? ["w".toList] = some .folder := by cbv
  obtain ⟨files, hscan, -, hlist, -⟩ := listing_of_folder hfolder hp ".txt".toList
  have hreverse := hlist List.reverse List.reverse_perm
  have hvalue : (ReportFile.list (Disk.shuffled List.reverse) "/w".toList ".txt".toList
      mixedDisk).1 = .ok [⟨"a.txt".toList, "/w/a.txt".toList, 2⟩,
        ⟨"b.txt".toList, "/w/b.txt".toList, 1⟩] := by
    cbv
  rw [hreverse] at hvalue
  exact ⟨hfolder, hp, files, hscan, hreverse, Except.ok.inj hvalue⟩

end ReportTally
