import ReportTally.Proofs.Folder.Listing
import ReportTally.Proofs.Folder.Paths

/-!
# A new file

A file that is written where nothing stood changes nothing else. A walk ends as before unless it
leads to the new file or goes on below it, and then it has led nowhere before (`follow_put`). So
every file holds the same bytes (`fileBytes?_put`), and a folder has the same reports unless a name
that ends with the suffix leads to the new file (`IsListing.put`): by its own name in the folder, or
through a link that has led nowhere before.
-/

namespace ReportTally.Disk

variable {d : Disk} {p q : Place} {bytes : Bytes} {path suffix : Text}

/-! ## Walks -/

/-- A walk that has led nowhere, and now leads to the place or stops there. -/
def StopsAt (p : Place) (before after : Except Fault Place) : Prop :=
  before = .error .notFound ∧ (after = .ok p ∨ after = .error .notFolder)

/-- A walk ends at something. -/
theorem isSome_of_follow {links : Nat} {at_ : Place} {names : List Text}
    (h : d.follow false links at_ names = .ok q) : (d.find? q).isSome := by
  match names with
  | [] =>
    rw [follow] at h
    split_ifs at h with hsome
    cases h
    simpa using hsome
  | name :: rest =>
    rcases step_cases name with hstep | hstep | hstep | hname
    · rw [hstep] at h
      exact isSome_of_follow h
    · rw [hstep] at h
      exact isSome_of_follow h
    · rw [hstep] at h
      cases h
    · rw [follow_cons hname] at h
      split at h
      · cases h
      · exact isSome_of_follow h
      · cases h
      · exact isSome_of_follow h
      · next hi _ _ =>
        split_ifs at h
        cases h
        rw [hi]
        rfl
termination_by (links, names.length)

/-- A new file changes a walk only if it leads to the file or goes on below it. The walk cannot be
there already, as it has gone through folders. -/
theorem follow_put (hp : p ≠ []) (hnew : d.find? p = none) (links : Nat) {at_ : Place}
    (hat : ¬p <+: at_) (names : List Text) :
    (d.put p (.file bytes)).follow false links at_ names = d.follow false links at_ names ∨
      StopsAt p (d.follow false links at_ names)
        ((d.put p (.file bytes)).follow false links at_ names) := by
  have hfind := find?_put hp d (.file bytes)
  match names with
  | [] =>
    have hne : at_ ≠ p := by
      rintro rfl
      exact hat (List.prefix_refl _)
    rw [follow, follow, hfind, if_neg hne]
    exact Or.inl rfl
  | name :: rest =>
    rcases step_cases name with hstep | hstep | hstep | hname
    · rw [hstep, hstep]
      exact follow_put hp hnew links hat rest
    · rw [hstep, hstep]
      exact follow_put hp hnew links (fun h => hat (h.trans (List.dropLast_prefix at_))) rest
    · rw [hstep, hstep]
      exact Or.inl rfl
    · rw [follow_cons hname, follow_cons hname, hfind]
      by_cases hq : at_ ++ [name] = p
      · rw [if_pos hq, hq, hnew]
        refine Or.inr ⟨rfl, ?_⟩
        cases rest with
        | nil => exact Or.inl rfl
        | cons next rest => exact Or.inr rfl
      · rw [if_neg hq]
        have hdown : ¬p <+: at_ ++ [name] := fun h =>
          (List.prefix_concat_iff.1 h).elim (fun h => hq h.symm) hat
        split
        · exact Or.inl rfl
        · exact follow_put hp hnew _ hdown rest
        · exact Or.inl rfl
        · refine follow_put hp hnew _ (fun h => ?_) _
          split_ifs at h
          · exact hp (List.prefix_nil.1 h)
          · exact hat h
        · exact Or.inl rfl
termination_by (links, names.length)

/-! ## Paths -/

theorem isSome_of_locate (h : d.locate false path = .ok q) : (d.find? q).isSome := by
  unfold locate at h
  cases hat : d.origin path with
  | error fault =>
    rw [hat] at h
    cases h
  | ok at_ =>
    rw [hat] at h
    exact isSome_of_follow h

variable (hd : d.Proper) (hp : p ≠ []) (hnew : d.find? p = none)
include hd hp hnew

theorem locate_put (bytes : Bytes) (path : Text) :
    (d.put p (.file bytes)).locate false path = d.locate false path ∨
      StopsAt p (d.locate false path) ((d.put p (.file bytes)).locate false path) := by
  have hhere : ¬p <+: d.here := by
    rintro ⟨r, hr⟩
    have hfolder := hd.folder_of_append (p := p) r (by rw [hr]; exact hd.here)
    rw [hnew] at hfolder
    cases hfolder
  have hfind : (d.put p (.file bytes)).find? d.here = d.find? d.here := by
    rw [find?_put hp, if_neg]
    rintro rfl
    exact hhere (List.prefix_refl _)
  have horigin : (d.put p (.file bytes)).origin path = d.origin path := by
    unfold origin
    rw [put_here, hfind]
  rw [locate, locate, horigin]
  cases hat : d.origin path with
  | error fault => exact Or.inl rfl
  | ok at_ =>
    refine follow_put hp hnew linkLimit (fun hprefix => ?_) (Path.names path)
    unfold origin at hat
    split at hat
    · cases hat
    · split_ifs at hat
      · cases hat
        exact hp (List.prefix_nil.1 hprefix)
      · cases hat
        exact hhere hprefix

/-- A path that does not lead to the new file leads to the same bytes as before. -/
theorem fileBytes?_put (hpath : (d.put p (.file bytes)).locate false path ≠ .ok p) :
    (d.put p (.file bytes)).fileBytes? path = d.fileBytes? path := by
  rcases locate_put hd hp hnew bytes path with hsame | ⟨hbefore, hafter⟩
  · unfold fileBytes?
    rw [hsame] at hpath ⊢
    cases hq : d.locate false path with
    | error fault => rfl
    | ok q =>
      have hne : q ≠ p := by
        rintro rfl
        exact hpath hq
      dsimp only
      rw [find?_put hp, if_neg hne]
  · unfold fileBytes?
    rw [hbefore, hafter.resolve_left hpath]

/-- What has been a file holds the same bytes as before. -/
theorem fileBytes?_put_of_eq_some {bytes' : Bytes} (h : d.fileBytes? path = some bytes') :
    (d.put p (.file bytes)).fileBytes? path = some bytes' := by
  obtain ⟨q, hq, hfind⟩ := fileBytes?_eq_some_iff.1 h
  rw [← h]
  refine fileBytes?_put hd hp hnew fun hafter => ?_
  rcases locate_put hd hp hnew bytes path with hsame | ⟨hbefore, -⟩
  · rw [hsame, hq] at hafter
    cases hafter
    rw [hnew] at hfind
    cases hfind
  · rw [hbefore] at hq
    cases hq

/-! ## Folders -/

/-- No name of the folder that ends with the suffix leads to the place. -/
def Unlisted (d : Disk) (p : Place) (folder suffix : Text) : Prop :=
  ∀ name, suffix <:+ name → d.Holds folder name → d.locate false (Path.join folder name) ≠ .ok p

variable (hd' : (d.put p (.file bytes)).Proper) (hq : d.find? q = some .folder)
  (hpath : Path.fault? (pathOf q) = none)
include hd' hq

omit hd hd' in
theorem find?_put_of_folder (bytes : Bytes) : (d.put p (.file bytes)).find? q = some .folder := by
  rw [find?_put hp, if_neg, hq]
  rintro rfl
  rw [hnew] at hq
  cases hq

include hpath

omit hd in
/-- In a folder without links only the new file itself can be a report more. -/
theorem unlisted_put (hlink : ∀ name target, d.find? (q ++ [name]) ≠ some (.link target))
    (hname : ∀ name, p = q ++ [name] → ¬suffix <:+ name) :
    (d.put p (.file bytes)).Unlisted p (pathOf q) suffix := by
  have hq' := find?_put_of_folder hp hnew hq bytes
  rintro name hsuffix ⟨q₁, hq₁, hfind⟩ hjoin
  rw [hd'.locate_pathOf hq' hpath] at hq₁
  cases hq₁
  refine hname name (hd'.eq_of_locate_join hq' (hd'.isName q name hfind) (fun target => ?_) hjoin)
    hsuffix
  rw [find?_put hp]
  split_ifs
  · simp
  · exact hlink name target

/-- A folder has the same reports as before, unless one of its names leads to the new file. -/
theorem IsListing.put {reports : List Named} (hreports : d.IsListing (pathOf q) suffix reports)
    (hunlisted : (d.put p (.file bytes)).Unlisted p (pathOf q) suffix) :
    (d.put p (.file bytes)).IsListing (pathOf q) suffix reports := by
  have hq' := find?_put_of_folder hp hnew hq bytes
  have hfolder := hd.locate_pathOf hq hpath
  have hfolder' := hd'.locate_pathOf hq' hpath
  refine ⟨hreports.sorted, fun r => ?_⟩
  rw [hreports.mem_iff r]
  constructor
  · rintro ⟨hsuffix, ⟨q₁, hq₁, hfind⟩, hbytes⟩
    rw [hfolder] at hq₁
    cases hq₁
    have hholds : (d.put p (.file bytes)).Holds (pathOf q) r.name := by
      refine ⟨q, hfolder', ?_⟩
      rw [find?_put hp]
      split_ifs
      · rfl
      · exact hfind
    refine ⟨hsuffix, hholds, ?_⟩
    rwa [fileBytes?_put hd hp hnew (hunlisted r.name hsuffix hholds)]
  · rintro ⟨hsuffix, hholds, hbytes⟩
    rw [fileBytes?_put hd hp hnew (hunlisted r.name hsuffix hholds)] at hbytes
    refine ⟨hsuffix, ⟨q, hfolder, ?_⟩, hbytes⟩
    obtain ⟨q₁, hq₁, hfind⟩ := hholds
    rw [hfolder'] at hq₁
    cases hq₁
    obtain ⟨bytes', hbytes', -⟩ := hbytes
    obtain ⟨r₁, hjoin, -⟩ := fileBytes?_eq_some_iff.1 hbytes'
    exact hd.isSome_of_locate_join hq (hd'.isName q r.name hfind) hjoin

end ReportTally.Disk
