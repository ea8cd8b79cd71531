import ReportTally.Folder.Disk
import ReportTally.Proofs.Distinct

/-!
# What is found on a disk

A disk is a list of items, but only what is found at each place counts. `Disk.fileBytes?` is the
file that a path leads to, and `Disk.Holds` says that a folder holds a name; the questions of a
volume are answered by them (`status_eq_file_iff`, `read_of_fileBytes?`, `mem_of_names`).

Two disks have the `SameItems` if the same is found at every place of both. Then every path leads
to the same place (`SameItems.follow`), and only the order in which a folder lists its names may
differ (`SameItems.names`). The order in which items were created is such a difference
(`SameItems.of_perm`).

A run that `Looks` changes no disk, and ends alike on disks with the same items. It may only ask
questions, and must not depend on the order of names (`Looks.bind`, `Looks.names_bind`).
-/

namespace ReportTally.Disk

variable {d d' : Disk} {p : Place} {path folder name : Text} {bytes : Bytes}

/-! ## Files -/

/-- The bytes of the file that a path leads to. -/
def fileBytes? (d : Disk) (path : Text) : Option Bytes :=
  match d.locate false path with
  | .error _ => none
  | .ok p =>
    match d.find? p with
    | some (.file bytes) => some bytes
    | _ => none

theorem fileBytes?_eq_some_iff : d.fileBytes? path = some bytes ↔
    ∃ p, d.locate false path = .ok p ∧ d.find? p = some (.file bytes) := by
  unfold fileBytes?
  cases d.locate false path with
  | error fault => simp
  | ok p =>
    cases hp : d.find? p with
    | none => simp [hp]
    | some i => cases i <;> simp [hp]

theorem status_eq_file_iff {size : Nat} : d.status path = .ok (.file size) ↔
    ∃ bytes, d.fileBytes? path = some bytes ∧ bytes.length = size := by
  simp only [fileBytes?_eq_some_iff]
  unfold status
  cases d.locate false path with
  | error fault => simp [bind, Except.bind]
  | ok p =>
    cases hp : d.find? p with
    | none => simp [bind, Except.bind, hp]
    | some i => cases i <;> simp [bind, Except.bind, pure, Except.pure, hp]

theorem read_of_fileBytes? (h : d.fileBytes? path = some bytes) : d.read path = .ok bytes := by
  obtain ⟨p, hpath, hp⟩ := fileBytes?_eq_some_iff.1 h
  unfold read
  rw [hpath]
  simp [bind, Except.bind, pure, Except.pure, hp]

/-! ## Folders -/

/-- A folder holds something of this name. -/
def Holds (d : Disk) (folder name : Text) : Prop :=
  ∃ p, d.locate false folder = .ok p ∧ (d.find? (p ++ [name])).isSome

theorem dropLast_getLast?_iff {q : Place} :
    (if q.dropLast = p then q.getLast? else none) = some name ↔ q = p ++ [name] := by
  constructor
  · intro h
    split at h
    · next hq =>
      obtain ⟨r, rfl⟩ := List.getLast?_eq_some_iff.1 h
      rw [List.dropLast_concat] at hq
      rw [hq]
    · cases h
  · rintro rfl
    simp

theorem mem_namesAt_iff : name ∈ d.namesAt p ↔ (d.find? (p ++ [name])).isSome := by
  have hne : p ++ [name] ≠ [] := by simp
  simp only [namesAt, List.mem_eraseDups, List.mem_filterMap, dropLast_getLast?_iff, find?,
    if_neg hne, List.lookup_isSome_iff, beq_iff_eq]
  simp only [eq_comm]

theorem names_eq_ok_iff {names : List Text} : d.names folder = .ok names ↔
    ∃ p, d.locate false folder = .ok p ∧ d.find? p = some .folder ∧ names = d.namesAt p := by
  unfold Disk.names
  cases d.locate false folder with
  | error fault => simp [bind, Except.bind]
  | ok p =>
    cases hp : d.find? p with
    | none => simp [bind, Except.bind, hp]
    | some i => cases i <;> simp [bind, Except.bind, pure, Except.pure, hp, eq_comm]

theorem status_of_names {names : List Text} (h : d.names folder = .ok names) :
    d.status folder = .ok .folder := by
  obtain ⟨p, hfolder, hp, -⟩ := names_eq_ok_iff.1 h
  unfold status
  rw [hfolder]
  simp [bind, Except.bind, pure, Except.pure, hp]

theorem nodup_of_names {names : List Text} (h : d.names folder = .ok names) : names.Nodup := by
  obtain ⟨p, -, -, rfl⟩ := names_eq_ok_iff.1 h
  exact nodup_eraseDups _

theorem mem_of_names {names : List Text} (h : d.names folder = .ok names) :
    name ∈ names ↔ d.Holds folder name := by
  obtain ⟨p, hfolder, -, rfl⟩ := names_eq_ok_iff.1 h
  rw [mem_namesAt_iff, Holds, hfolder]
  simp

/-! ## Disks with the same items -/

/-- The same is found at every place. -/
structure SameItems (d' d : Disk) : Prop where
  /-- Relative paths start in the same folder. -/
  here : d'.here = d.here
  /-- The same item counts at every place. -/
  find? : ∀ p, d'.find? p = d.find? p

theorem SameItems.of_perm (hhere : d'.here = d.here) (hitems : d'.items.Perm d.items)
    (hplaces : (d.items.map Prod.fst).Nodup) : SameItems d' d := by
  refine ⟨hhere, fun p => ?_⟩
  have hplaces' : (d'.items.map Prod.fst).Nodup := (hitems.map Prod.fst).nodup_iff.2 hplaces
  unfold Disk.find?
  split
  · rfl
  · ext i
    rw [lookup_eq_some_iff_mem hplaces,
      lookup_eq_some_iff_mem hplaces', hitems.mem_iff]

namespace SameItems

variable (h : SameItems d' d)
include h

theorem follow (create : Bool) (links : Nat) (at_ : Place) (names : List Text) :
    d'.follow create links at_ names = d.follow create links at_ names := by
  match names with
  | [] => rw [Disk.follow, Disk.follow, h.find?]
  | name :: rest =>
    have hstay := follow create links at_ rest
    have hup := follow create links at_.dropLast rest
    have hdown := follow create links (at_ ++ [name]) rest
    rw [Disk.follow, Disk.follow, h.find?, hstay, hup, hdown]
    cases links with
    | zero => rfl
    | succ links =>
      have hlink := fun target => follow create links
        (if Path.isAbsolute target then [] else at_) (Path.names target ++ rest)
      simp only [hlink]
termination_by (links, names.length)

theorem locate (create : Bool) (path : Text) : d'.locate create path = d.locate create path := by
  unfold Disk.locate origin
  simp only [h.follow, h.here, h.find?]

theorem status (path : Text) : d'.status path = d.status path := by
  unfold Disk.status
  simp only [h.locate, h.find?]

theorem resolve (path : Text) : d'.resolve path = d.resolve path := by
  unfold Disk.resolve
  simp only [h.locate]

theorem read (path : Text) : d'.read path = d.read path := by
  unfold Disk.read
  simp only [h.locate, h.find?]

theorem holds_iff (folder name : Text) : d'.Holds folder name ↔ d.Holds folder name := by
  unfold Holds
  simp only [h.locate, h.find?]

/-- A folder lists the same names, but perhaps in another order. -/
theorem names (folder : Text) :
    (∃ fault, d.names folder = .error fault ∧ d'.names folder = .error fault) ∨
      ∃ names names', d.names folder = .ok names ∧ d'.names folder = .ok names' ∧
        names'.Perm names := by
  cases hnames : d.names folder with
  | ok names =>
    obtain ⟨p, hfolder, hp, -⟩ := names_eq_ok_iff.1 hnames
    have hnames' : d'.names folder = .ok (d'.namesAt p) :=
      names_eq_ok_iff.2 ⟨p, by rw [h.locate, hfolder], by rw [h.find?, hp], rfl⟩
    refine Or.inr ⟨_, _, rfl, hnames', ?_⟩
    rw [List.perm_ext_iff_of_nodup (nodup_of_names hnames') (nodup_of_names hnames)]
    intro name
    rw [mem_of_names hnames, mem_of_names hnames', h.holds_iff]
  | error fault =>
    refine Or.inl ⟨fault, rfl, ?_⟩
    rw [← hnames, Disk.names, Disk.names, h.locate]
    cases hfolder : d.locate false folder with
    | error fault => rfl
    | ok p =>
      have hp : d.find? p ≠ some .folder := by
        intro hp
        rw [names_eq_ok_iff.2 ⟨p, hfolder, hp, rfl⟩] at hnames
        cases hnames
      simp only [bind, Except.bind, h.find?]

end SameItems

/-! ## Runs that look only -/

variable {α β : Type}

theorem bind_apply (x : StateM Disk α) (f : α → StateM Disk β) (d : Disk) :
    (x >>= f) d = f (x d).1 (x d).2 :=
  rfl

theorem volume_status (d : Disk) (path : Text) : volume.status path d = (d.status path, d) :=
  rfl

theorem volume_resolve (d : Disk) (path : Text) : volume.resolve path d = (d.resolve path, d) :=
  rfl

theorem volume_names (d : Disk) (folder : Text) : volume.names folder d = (d.names folder, d) :=
  rfl

theorem volume_read (d : Disk) (path : Text) : volume.read path d = (d.read path, d) :=
  rfl

/-- A run that leaves the disk as it is, and has the same result on disks with the same items. -/
structure Looks (x : StateM Disk α) : Prop where
  /-- The disk stays as it is. -/
  keeps : ∀ d, (x d).2 = d
  /-- Only what is found at each place counts. -/
  same : ∀ d' d, SameItems d' d → (x d').1 = (x d).1

namespace Looks

theorem pure (a : α) : Looks (pure a : StateM Disk α) :=
  ⟨fun _ => rfl, fun _ _ _ => rfl⟩

theorem bind {x : StateM Disk α} {f : α → StateM Disk β} (hx : Looks x) (hf : ∀ a, Looks (f a)) :
    Looks (x >>= f) where
  keeps d := by rw [bind_apply, hx.keeps, (hf _).keeps]
  same d' d h := by
    rw [bind_apply, bind_apply, hx.keeps, hx.keeps, hx.same d' d h]
    exact (hf _).same d' d h

theorem apply_eq {x : StateM Disk α} (hx : Looks x) {d : Disk} {a : α} (h : (x d).1 = a) :
    x d = (a, d) :=
  Prod.ext h (hx.keeps d)

theorem status (path : Text) : Looks (volume.status path) :=
  ⟨fun _ => rfl, fun _ _ h => h.status path⟩

theorem resolve (path : Text) : Looks (volume.resolve path) :=
  ⟨fun _ => rfl, fun _ _ h => h.resolve path⟩

theorem read (path : Text) : Looks (volume.read path) :=
  ⟨fun _ => rfl, fun _ _ h => h.read path⟩

/-- What is done with the names of a folder must not depend on their order. -/
theorem names_bind {f : Except Fault (List Text) → StateM Disk β} (hf : ∀ r, Looks (f r))
    (hperm : ∀ names names', names'.Perm names → f (.ok names') = f (.ok names)) (folder : Text) :
    Looks (volume.names folder >>= f) where
  keeps d := by rw [bind_apply, volume_names, (hf _).keeps]
  same d' d h := by
    rw [bind_apply, bind_apply, volume_names, volume_names]
    rcases h.names folder with ⟨fault, hd, hd'⟩ | ⟨names, names', hd, hd', hnames⟩
    · rw [hd, hd']
      exact (hf _).same d' d h
    · rw [hd, hd', hperm names names' hnames]
      exact (hf _).same d' d h

end Looks

end ReportTally.Disk
