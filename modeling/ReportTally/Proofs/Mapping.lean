import Mathlib.Algebra.Ring.Nat
import Mathlib.Data.Finset.Card
import ReportTally.Proofs.Distinct
import ReportTally.Proofs.Report.Feeding
import ReportTally.Proofs.Text.Cuts

/-!
# Processors of mapping files

A processor is the first column of a line that is not blank, trimmed (`HasKey`). It may be empty,
since a tab is a blank but stands between columns, so a file has no processor just if it has no line
that is not blank (`Contents.keys_eq_zero_iff`). A file says how many processors it has
(`Contents.keys_ofText`) and whether it has any, so only the set of its processors counts
(`Contents.ofText_congr`).

A run over mapping files adds their numbers up (`summarize_mappings`), so their order does not
count. `processors_of_reports` puts this together.
-/

namespace ReportTally

theorem Text.eq_before_of_fields {sep : Char} {t a : Text} {ts : List Text}
    (h : fields sep t = a :: ts) : a = before sep t := by
  rcases eq_or_ne ts [] with rfl | hts
  · obtain ⟨rfl, ha⟩ := fields_eq_singleton_iff.1 h
    exact (before_of_notMem ha).symm
  · obtain ⟨b, rfl, ha, -⟩ := (fields_eq_cons_iff hts).1 h
    exact (before_append_cons ha b).symm

namespace Mapping

variable {t t' : Text}

/-! ## Processors of a file -/

/-- The first column of a line that is not blank, trimmed. -/
def HasKey (t k : Text) : Prop :=
  ∃ line ∈ Text.lines t, Text.trim line ≠ [] ∧
    ∃ column rest, Text.fields '\t' line = column :: rest ∧ k = Text.trim column

theorem mem_entries_iff {line : Text} :
    line ∈ entries t ↔ line ∈ Text.lines t ∧ Text.trim line ≠ [] := by
  simp [entries]

theorem mem_map_key_iff {k : Text} : k ∈ (entries t).map key ↔ HasKey t k := by
  simp only [List.mem_map, mem_entries_iff, and_assoc]
  refine exists_congr fun line => and_congr_right fun _ => and_congr_right fun _ => ?_
  obtain ⟨column, rest, hfields⟩ := List.exists_cons_of_ne_nil (Text.fields_ne_nil '\t' line)
  rw [key, ← Text.eq_before_of_fields hfields, hfields]
  constructor
  · rintro rfl
    exact ⟨column, rest, rfl, rfl⟩
  · rintro ⟨column', rest', h, rfl⟩
    rw [(List.cons.inj h).1]

/-- A line that starts with a tab has an empty first column. -/
theorem hasKey_nil_of_tab {line : Text} (hline : line ∈ Text.lines t) (hblank : Text.trim line ≠ [])
    (htab : line.head? = some '\t') : HasKey t [] := by
  obtain ⟨rest, rfl⟩ := List.head?_eq_some_iff.1 htab
  exact ⟨_, hline, hblank, [], Text.fields '\t' rest, rfl, rfl⟩

namespace Contents

theorem keys_ofText (t : Text) : (ofText t).keys = ((entries t).map key).toFinset.card :=
  length_eraseDups _

theorem entries_eq_nil_iff (t : Text) :
    entries t = [] ↔ ∀ line ∈ Text.lines t, Text.trim line = [] := by
  simp [entries]

/-- A file has no processor just if every line is blank. -/
theorem keys_eq_zero_iff (t : Text) :
    (ofText t).keys = 0 ↔ ∀ line ∈ Text.lines t, Text.trim line = [] := by
  rw [keys_ofText, Finset.card_eq_zero, List.toFinset_eq_empty_iff, List.map_eq_nil_iff,
    entries_eq_nil_iff]

theorem empty_iff (t : Text) :
    (ofText t).empty = true ↔ ∀ line ∈ Text.lines t, Text.trim line = [] :=
  List.isEmpty_iff.trans (entries_eq_nil_iff t)

/-- Only the set of processors of a file counts. -/
theorem ofText_congr (h : ∀ k, HasKey t k ↔ HasKey t' k) : ofText t = ofText t' := by
  have hkeys : (ofText t).keys = (ofText t').keys := by
    rw [keys_ofText, keys_ofText]
    congr 1
    ext k
    rw [List.mem_toFinset, List.mem_toFinset, mem_map_key_iff, mem_map_key_iff, h]
  have hempty : (ofText t).empty = (ofText t').empty := by
    rw [Bool.eq_iff_iff, empty_iff, empty_iff, ← keys_eq_zero_iff, ← keys_eq_zero_iff, hkeys]
  exact congrArg₂ Contents.mk hkeys hempty

end Contents

/-! ## Runs -/

/-- The summary of mapping files: their numbers, added up. -/
def Summary.ofReports (folder : Text) (reports : List Named) : Summary where
  folder := folder
  files := reports.length
  keys := (reports.map fun r => (Contents.ofText r.contents).keys).sum
  empty := reports.countP fun r => (Contents.ofText r.contents).empty

theorem Summary.foldl_add (cs : List Contents) (s : Summary) :
    cs.foldl add s =
      { s with
        files := s.files + cs.length
        keys := s.keys + (cs.map Contents.keys).sum
        empty := s.empty + cs.countP Contents.empty } := by
  induction cs generalizing s with
  | nil => rfl
  | cons c cs ih =>
    rw [List.foldl_cons, ih, List.length_cons, List.map_cons, List.sum_cons, List.countP_cons,
      Nat.add_comm cs.length, Nat.add_comm (cs.countP _), add]
    simp only [Nat.add_assoc]

theorem summarize_mappings (rules : Rules) (folder : Text) (reports : List Named) :
    summarize rules .mappings folder reports = .ok (.mappings (.ofReports folder reports)) := by
  have hfeed (s : Summary) (r : Named) : (Tally.mappings s).feed rules r.name r.contents =
      (Except.ok (Contents.ofText r.contents)).map fun c => .mappings (s.add c) := rfl
  have hread : (reports.filterMap fun r =>
      (Except.ok (Contents.ofText r.contents) : Except Flaw Contents).toOption) =
      reports.map fun r => Contents.ofText r.contents :=
    congrFun List.filterMap_eq_map' reports
  have hrun := feedAll_of_reads hfeed (fun r (_ : r ∈ reports) => ⟨_, rfl⟩) {}
  rw [hread, Summary.foldl_add] at hrun
  refine summarize_of_feedAll hrun ?_
  simp [Tally.finish, Summary.ofReports, List.countP_map, Function.comp_def]

/-- The order of the files does not count. -/
theorem Summary.ofReports_perm {reports reports' : List Named} (h : reports'.Perm reports)
    (folder : Text) : ofReports folder reports' = ofReports folder reports := by
  simp only [ofReports, h.length_eq, (h.map _).sum_nat, h.countP_eq]

/-- A mapping file has no processor just if it is empty, which is to say that every line is blank.
Its number of processors is that of the different first columns of lines that are not blank; the
first column of such a line is empty if the line starts with a tab. So files with the same first
columns say the same. A run over any files succeeds and adds their numbers up, and the order of the
files does not count. -/
theorem processors_of_reports (rules : Rules) (folder : Text) (reports : List Named) :
    (∀ t, ((Contents.ofText t).empty = true ↔ (Contents.ofText t).keys = 0) ∧
      ((Contents.ofText t).keys = 0 ↔ ∀ line ∈ Text.lines t, Text.trim line = []) ∧
      (∃ ks : Finset Text, (∀ k, k ∈ ks ↔ HasKey t k) ∧ (Contents.ofText t).keys = ks.card) ∧
      (∀ line ∈ Text.lines t, Text.trim line ≠ [] → line.head? = some '\t' → HasKey t []) ∧
      ∀ t', (∀ k, HasKey t k ↔ HasKey t' k) → Contents.ofText t = Contents.ofText t') ∧
    ∃ s : Summary, summarize rules .mappings folder reports = .ok (.mappings s) ∧
      s.files = reports.length ∧
      s.keys = (reports.map fun r => (Contents.ofText r.contents).keys).sum ∧
      s.empty = (reports.countP fun r => (Contents.ofText r.contents).empty) ∧
      ∀ reports', reports'.Perm reports →
        summarize rules .mappings folder reports' = .ok (.mappings s) := by
  refine ⟨fun t => ⟨?_, Contents.keys_eq_zero_iff t, ?_, fun _ => hasKey_nil_of_tab, fun _ =>
    Contents.ofText_congr⟩, _, summarize_mappings rules folder reports, rfl, rfl, rfl, ?_⟩
  · rw [Contents.empty_iff, Contents.keys_eq_zero_iff]
  · refine ⟨((entries t).map key).toFinset, fun k => ?_, Contents.keys_ofText t⟩
    rw [List.mem_toFinset, mem_map_key_iff]
  · intro reports' hperm
    rw [summarize_mappings, Summary.ofReports_perm hperm]

/-- A line that starts with a tab has the empty processor, and both files count the other one. -/
theorem processors_of_leadingTab :
    HasKey "\t1\nA\t2\n A \t3\n\n".toList [] ∧
      ∃ s : Summary, summarize ⟨[], [], 0⟩ .mappings []
        [⟨['r'], "\t1\nA\t2\n A \t3\n\n".toList⟩, ⟨['s'], "A".toList⟩] = .ok (.mappings s) ∧
      summarize ⟨[], [], 0⟩ .mappings []
        [⟨['s'], "A".toList⟩, ⟨['r'], "\t1\nA\t2\n A \t3\n\n".toList⟩] = .ok (.mappings s) ∧
      s.keys = 3 := by
  obtain ⟨hfile, s, hrun, -, hkeys, -, hperm⟩ := processors_of_reports ⟨[], [], 0⟩ []
    [⟨['r'], "\t1\nA\t2\n A \t3\n\n".toList⟩, ⟨['s'], "A".toList⟩]
  obtain ⟨-, -, -, htab, -⟩ := hfile "\t1\nA\t2\n A \t3\n\n".toList
  refine ⟨htab "\t1".toList (by decide +kernel) (by decide +kernel) rfl, s, hrun,
    hperm _ (.swap _ _ []), hkeys.trans ?_⟩
  decide +kernel

end Mapping

end ReportTally
