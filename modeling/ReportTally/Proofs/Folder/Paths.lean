import Mathlib.Data.List.Basic
import Mathlib.Data.List.Induction
import Mathlib.Tactic.SplitIfs
import ReportTally.Folder.Disk
import ReportTally.Proofs.Text.Cuts

/-!
# Places and their paths

On a disk that is `Proper` everything stands in a folder, under a name that a path can mention. Then
the path of a folder leads to the folder (`locate_pathOf`), and the path of a name in a folder leads
to what the folder has under this name (`isSome_of_locate_join`), because no step of either walk
meets a link, a dot or a missing folder (`Proper.follow_append`).

A path is cut at its slashes into the names of its place (`names_pathOf`).
-/

namespace ReportTally

/-! ## Cutting at slashes -/

namespace Text

theorem intercalate_concat (sep : Char) (ts : List Text) (t : Text) :
    [sep].intercalate (ts ++ [t]) = ts.flatMap (· ++ [sep]) ++ t := by
  induction ts with
  | nil => rw [List.nil_append, List.intercalate_singleton, List.flatMap_nil, List.nil_append]
  | cons u us ih =>
    obtain ⟨v, vs, hvs⟩ := List.exists_cons_of_ne_nil (by simp : us ++ [t] ≠ [])
    rw [List.cons_append, hvs, List.intercalate_cons_cons, ← hvs, ih, List.flatMap_cons]
    simp only [List.append_assoc]

end Text

/-- A step of a walk to this name goes down. -/
def Path.GoesDown (name : Text) : Prop :=
  name ≠ [] ∧ name ≠ ['.'] ∧ name ≠ ['.', '.'] ∧ exceeds nameLimit name = false

/-- A path can mention the name. -/
def Path.IsName (name : Text) : Prop :=
  GoesDown name ∧ '/' ∉ name

instance : DecidablePred Path.GoesDown := fun _ => inferInstanceAs (Decidable (_ ∧ _))

instance : DecidablePred Path.IsName := fun _ => inferInstanceAs (Decidable (_ ∧ _))

namespace Disk

variable {d : Disk} {p q : Place} {name : Text} {i : Item}

theorem find?_put (hp : p ≠ []) (d : Disk) (i : Item) (q : Place) :
    (d.put p i).find? q = if q = p then some i else d.find? q := by
  unfold find? put
  by_cases hqp : q = p
  · rw [if_pos hqp, hqp, if_neg hp, List.lookup_cons, beq_self_eq_true]
  · rw [if_neg hqp, List.lookup_cons, beq_false_of_ne hqp]

theorem mem_items_of_find? (hp : p ≠ []) (h : d.find? p = some i) : (p, i) ∈ d.items := by
  rw [find?, if_neg hp, List.lookup_eq_some_iff] at h
  obtain ⟨l, r, hitems, -⟩ := h
  rw [hitems]
  exact List.mem_append_right l List.mem_cons_self

@[simp] theorem put_here (d : Disk) (p : Place) (i : Item) : (d.put p i).here = d.here :=
  rfl

/-! ## Steps of a walk -/

/-- A step of a walk that goes down. -/
theorem follow_cons (hname : Path.GoesDown name) (d : Disk) (links : Nat) (p : Place)
    (rest : List Text) : d.follow false links p (name :: rest) =
      match d.find? (p ++ [name]), links with
      | none, _ => .error .notFound
      | some .folder, _ => d.follow false links (p ++ [name]) rest
      | some (.link _), 0 => .error .tooManyLinks
      | some (.link target), links + 1 =>
        d.follow false links (if Path.isAbsolute target then [] else p)
          (Path.names target ++ rest)
      | some _, _ => if rest.isEmpty then .ok (p ++ [name]) else .error .notFolder := by
  obtain ⟨hempty, hdot, hdots, hlength⟩ := hname
  rw [follow]
  simp only [hempty, hdot, hdots, hlength, decide_false, Bool.or_self, Bool.false_and,
    Bool.false_eq_true, if_false]
  cases d.find? (p ++ [name]) with
  | none => rfl
  | some i =>
    cases i with
    | folder => rfl
    | file bytes => rfl
    | device => rfl
    | link target => cases links <;> rfl

/-- A step of a walk stays, goes up, is refused or goes down, whatever the disk holds. -/
theorem step_cases (name : Text) :
    (∀ (d : Disk) links p rest,
      d.follow false links p (name :: rest) = d.follow false links p rest) ∨
    (∀ (d : Disk) links p rest,
      d.follow false links p (name :: rest) = d.follow false links p.dropLast rest) ∨
    (∀ (d : Disk) links p rest, d.follow false links p (name :: rest) = .error .nameTooLong) ∨
    Path.GoesDown name := by
  by_cases hstay : name = [] ∨ name = ['.']
  · refine Or.inl fun d links p rest => ?_
    rcases hstay with rfl | rfl <;> simp [follow]
  obtain ⟨hempty, hdot⟩ := not_or.1 hstay
  by_cases hup : name = ['.', '.']
  · refine Or.inr (Or.inl fun d links p rest => ?_)
    simp [follow, hup]
  cases hlong : Path.exceeds Path.nameLimit name with
  | true =>
    refine Or.inr (Or.inr (Or.inl fun d links p rest => ?_))
    simp [follow, hempty, hdot, hup, hlong]
  | false => exact Or.inr (Or.inr (Or.inr ⟨hempty, hdot, hup, hlong⟩))

/-! ## Proper disks -/

/-- Everything stands in a folder, under a name that a path can mention, and relative paths start in
a folder. -/
structure Proper (d : Disk) : Prop where
  /-- Relative paths start in a folder. -/
  here : d.find? d.here = some .folder
  /-- What has a name stands in a folder. -/
  parent : ∀ p name, (d.find? (p ++ [name])).isSome → d.find? p = some .folder
  /-- A path can mention the name. -/
  isName : ∀ p name, (d.find? (p ++ [name])).isSome → Path.IsName name

/-- A disk is proper if its items are. -/
theorem Proper.of_items (hhere : d.find? d.here = some .folder)
    (hitems : ∀ x ∈ d.items, d.find? x.1.dropLast = some .folder ∧
      ∀ name ∈ x.1.getLast?, Path.IsName name) : d.Proper := by
  have hitem (p : Place) (name : Text) (h : (d.find? (p ++ [name])).isSome) :
      ∃ x ∈ d.items, x.1 = p ++ [name] := by
    obtain ⟨i, hi⟩ := Option.isSome_iff_exists.1 h
    exact ⟨_, mem_items_of_find? (by simp) hi, rfl⟩
  refine ⟨hhere, fun p name h => ?_, fun p name h => ?_⟩
  · obtain ⟨x, hx, hplace⟩ := hitem p name h
    have hparent := (hitems x hx).1
    rwa [hplace, List.dropLast_concat] at hparent
  · obtain ⟨x, hx, hplace⟩ := hitem p name h
    exact (hitems x hx).2 name (by rw [hplace]; simp)

namespace Proper

variable (hd : d.Proper)
include hd

theorem folder_of_append (r : Place) (h : d.find? (p ++ r) = some .folder) :
    d.find? p = some .folder := by
  induction r using List.reverseRecOn with
  | nil => rwa [List.append_nil] at h
  | append_singleton r name ih =>
    rw [← List.append_assoc] at h
    exact ih (hd.parent _ name (by rw [h]; rfl))

theorem isName_of_mem (h : d.find? p = some .folder) : ∀ name ∈ p, Path.IsName name := by
  intro name hname
  obtain ⟨r, s, rfl⟩ := List.append_of_mem hname
  rw [← List.singleton_append, ← List.append_assoc] at h
  have hfolder := hd.folder_of_append s h
  exact hd.isName r name (by rw [hfolder]; rfl)

/-- A new file in a folder leaves a disk proper. -/
theorem put (hp : d.find? p = some .folder) (hname : Path.IsName name)
    (hnew : d.find? (p ++ [name]) = none) (bytes : Bytes) :
    (d.put (p ++ [name]) (.file bytes)).Proper := by
  have hfind := find?_put (by simp : p ++ [name] ≠ []) d (.file bytes)
  have hfolder (q : Place) (h : d.find? q = some .folder) :
      (d.put (p ++ [name]) (.file bytes)).find? q = some .folder := by
    rw [hfind, if_neg, h]
    rintro rfl
    rw [hnew] at h
    cases h
  have hcases (q : Place) (name' : Text)
      (h : ((d.put (p ++ [name]) (.file bytes)).find? (q ++ [name'])).isSome) :
      (q = p ∧ name' = name) ∨ (d.find? (q ++ [name'])).isSome := by
    rw [hfind] at h
    split_ifs at h with hq
    · have hlast := List.append_inj' hq rfl
      exact Or.inl ⟨hlast.1, List.singleton_inj.1 hlast.2⟩
    · exact Or.inr h
  refine ⟨hfolder _ hd.here, fun q name' h => ?_, fun q name' h => ?_⟩
  · rcases hcases q name' h with ⟨rfl, -⟩ | hsome
    · exact hfolder q hp
    · exact hfolder q (hd.parent q name' hsome)
  · rcases hcases q name' h with ⟨-, rfl⟩ | hsome
    · exact hname
    · exact hd.isName q name' hsome

/-- A walk along names of folders goes down to the last one. -/
theorem follow_append (h : d.find? (p ++ q) = some .folder) (links : Nat) (rest : List Text) :
    d.follow false links p (q ++ rest) = d.follow false links (p ++ q) rest := by
  induction q generalizing p with
  | nil => rw [List.nil_append, List.append_nil]
  | cons name q ih =>
    rw [← List.singleton_append, ← List.append_assoc] at h
    have hfolder := hd.folder_of_append q h
    have hname := hd.isName p name (by rw [hfolder]; rfl)
    rw [List.cons_append, follow_cons hname.1, hfolder, ih h, List.append_assoc,
      List.singleton_append]

end Proper

/-! ## Paths of places -/

theorem locate_eq_ok_iff {create : Bool} {path : Text} : d.locate create path = .ok q ↔
    ∃ o, d.origin path = .ok o ∧ d.follow create linkLimit o (Path.names path) = .ok q := by
  unfold locate
  cases d.origin path <;> simp [bind, Except.bind]

theorem fault?_of_origin {path : Text} {o : Place} (h : d.origin path = .ok o) :
    Path.fault? path = none := by
  unfold origin at h
  cases hfault : Path.fault? path with
  | none => rfl
  | some fault =>
    rw [hfault] at h
    cases h

theorem names_pathOf (h : ∀ name ∈ p, Path.IsName name) (hp : p ≠ []) :
    Path.names (pathOf p) = [] :: p := by
  rw [Path.names, pathOf, Text.fields_cons, if_pos rfl,
    Text.fields_intercalate (fun name hname => (h name hname).2) hp]

/-- The path of a place starts at the root. -/
theorem locate_pathOf_eq (d : Disk) (p : Place) : d.locate false (pathOf p) =
    match Path.fault? (pathOf p) with
    | some fault => .error fault
    | none => d.follow false linkLimit [] (Path.names (pathOf p)) := by
  rw [locate, origin]
  cases Path.fault? (pathOf p) <;> rfl

/-- The path of a folder leads to the folder. -/
theorem Proper.locate_pathOf (hd : d.Proper) (h : d.find? p = some .folder)
    (hpath : Path.fault? (pathOf p) = none) : d.locate false (pathOf p) = .ok p := by
  have hend : d.follow false linkLimit p [] = .ok p := by
    rw [follow, h]
    rfl
  rw [locate_pathOf_eq, hpath]
  by_cases hp : p = []
  · subst hp
    rw [(by rfl : Path.names (pathOf []) = [[], []]), follow, follow]
    exact hend
  · have hdown := hd.follow_append (p := []) (q := p) h linkLimit []
    rw [List.append_nil, List.nil_append, hend] at hdown
    rw [names_pathOf (hd.isName_of_mem h) hp, follow]
    exact hdown

/-- The path of a name in a folder is the path of its place. -/
theorem join_pathOf (h : ∀ name ∈ p, Path.IsName name) (name : Text) :
    Path.join (pathOf p) name = pathOf (p ++ [name]) := by
  rcases List.eq_nil_or_concat' p with rfl | ⟨r, last, rfl⟩
  · simp [Path.join, pathOf]
  · obtain ⟨⟨hempty, -⟩, hslash⟩ := h last (by simp)
    obtain ⟨u, c, rfl⟩ := (List.eq_nil_or_concat' last).resolve_left hempty
    have hc : c ≠ '/' := by
      rintro rfl
      exact hslash (by simp)
    have hlast : (pathOf (r ++ [u ++ [c]])).getLast? = some c := by
      rw [pathOf, Text.intercalate_concat, ← List.append_assoc, ← List.cons_append]
      exact List.getLast?_concat
    have hjoin : Path.join (pathOf (r ++ [u ++ [c]])) name =
        pathOf (r ++ [u ++ [c]]) ++ '/' :: name := by
      simp [Path.join, hlast]
    rw [hjoin, pathOf, pathOf, Text.intercalate_concat, Text.intercalate_concat,
      List.flatMap_append]
    simp

/-- The path of a name in a folder is walked from the folder. -/
theorem Proper.locate_join (hd : d.Proper) (h : d.find? p = some .folder)
    (hname : Path.IsName name) (hfault : Path.fault? (Path.join (pathOf p) name) = none) :
    d.locate false (Path.join (pathOf p) name) = d.follow false linkLimit p [name] := by
  have hnames : ∀ name' ∈ p ++ [name], Path.IsName name' := by
    intro name' hmem
    rcases List.mem_append.1 hmem with hmem | hmem
    · exact hd.isName_of_mem h name' hmem
    · rwa [List.mem_singleton.1 hmem]
  rw [join_pathOf (hd.isName_of_mem h)] at hfault ⊢
  rw [locate_pathOf_eq, names_pathOf hnames (by simp), hfault, follow]
  exact hd.follow_append (p := []) (q := p) h linkLimit [name]

/-- The path of a name in a folder leads where the name leads from there. -/
theorem Proper.follow_of_locate_join (hd : d.Proper) (h : d.find? p = some .folder)
    (hname : Path.IsName name) (hjoin : d.locate false (Path.join (pathOf p) name) = .ok q) :
    d.follow false linkLimit p [name] = .ok q := by
  obtain ⟨o, ho, -⟩ := locate_eq_ok_iff.1 hjoin
  rwa [← hd.locate_join h hname (fault?_of_origin ho)]

/-- The path of a name in a folder leads somewhere only if the folder has something of this name. -/
theorem Proper.isSome_of_locate_join (hd : d.Proper) (h : d.find? p = some .folder)
    (hname : Path.IsName name) (hjoin : d.locate false (Path.join (pathOf p) name) = .ok q) :
    (d.find? (p ++ [name])).isSome := by
  have hwalk := hd.follow_of_locate_join h hname hjoin
  rw [follow_cons hname.1] at hwalk
  cases hfind : d.find? (p ++ [name]) with
  | some i => rfl
  | none =>
    rw [hfind] at hwalk
    cases hwalk

/-- The path of a name in a folder leads to what the folder has under this name, unless that is a
link. -/
theorem Proper.eq_of_locate_join (hd : d.Proper) (h : d.find? p = some .folder)
    (hname : Path.IsName name) (hlink : ∀ target, d.find? (p ++ [name]) ≠ some (.link target))
    (hjoin : d.locate false (Path.join (pathOf p) name) = .ok q) : q = p ++ [name] := by
  have hwalk := hd.follow_of_locate_join h hname hjoin
  rw [follow_cons hname.1] at hwalk
  split at hwalk
  · cases hwalk
  · next hfolder =>
    rw [follow, hfolder] at hwalk
    exact (Except.ok.inj hwalk).symm
  · next hfind _ => exact absurd hfind (hlink _)
  · next hfind _ => exact absurd hfind (hlink _)
  · exact (Except.ok.inj hwalk).symm

end Disk

end ReportTally
