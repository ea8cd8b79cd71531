import ReportTally.Proofs.Report.Feeding

/-!
# Entries of passthrough reports

The `entries` of reports are their counted rows with their counts. Without flawed rows the tally
of a run is that of its entries, added one by one (`feedAll_passthrough`); ignored and generated
rows leave no trace in it but a number of classes.
-/

namespace ReportTally.Passthrough

/-! ## Entries -/

/-- A counted row. -/
structure Entry where
  /-- The file of the row. -/
  file : Text
  /-- The row. -/
  row : Text
  /-- Its counts. -/
  counts : Counts

/-- The entry of a row, if the row is counted and can be read. -/
def entryOf? (names : List Text) (file row : Text) : Option Entry :=
  if Counted names row then (counts? row).map (Entry.mk file row) else none

/-- The entries of rows of a file. -/
def fileEntries (names : List Text) (file : Text) (rs : List Text) : List Entry :=
  rs.filterMap (entryOf? names file)

/-- The entries of all reports, in order. -/
def entries (names : List Text) (reports : List Named) : List Entry :=
  reports.flatMap fun r => fileEntries names r.name (rows r.contents)

/-- The rows of all reports, in order. -/
def allRows (reports : List Named) : List Text :=
  reports.flatMap fun r => rows r.contents

/-- No row of the reports is flawed. -/
def Flawless (names : List Text) (reports : List Named) : Prop :=
  ∀ row ∈ allRows reports, ∀ e, ¬RowFlaw names row e

theorem flawless_iff {names : List Text} {reports : List Named} : Flawless names reports ↔
    ∀ row ∈ allRows reports, (Row.ofText names row).isOk = true := by
  refine forall₂_congr fun row _ => ?_
  simp only [← Row.ofText_eq_error_iff]
  cases Row.ofText names row <;> simp [Except.isOk, Except.toBool]

instance (names : List Text) (reports : List Named) : Decidable (Flawless names reports) :=
  decidable_of_iff _ flawless_iff.symm

namespace Tally

/-- One counted row more. -/
def addEntry (t : Tally) (e : Entry) : Tally :=
  { t with counted := t.counted + 1 }.addCounts e.file e.row e.counts

/-- The tally of entries, in this many files with this many classes. -/
def ofEntries (files classes : Nat) (es : List Entry) : Tally :=
  { es.foldl addEntry {} with files := files, classes := classes }

end Tally

/-- The numbers of files and of classes say nothing about an entry. -/
theorem Tally.addEntry_with (t : Tally) (files classes : Nat) (e : Entry) :
    addEntry { t with files := files, classes := classes } e =
      { addEntry t e with files := files, classes := classes } := by
  unfold addEntry addCounts
  split_ifs <;> rfl

theorem Tally.addEntry_ofEntries (files classes : Nat) (es : List Entry) (e : Entry) :
    (ofEntries files classes es).addEntry e = ofEntries files classes (es ++ [e]) := by
  rw [ofEntries, addEntry_with, ofEntries, List.foldl_append]
  rfl

/-- A counted row that is not flawed can be read. -/
theorem exists_counts? {names : List Text} {row : Text} (h : ∀ e, ¬RowFlaw names row e)
    (hc : Counted names row) : ∃ c, counts? row = some c := by
  rw [← Counts.toOption_ofFields]
  cases hread : Counts.ofFields row (Text.fields '+' row) with
  | ok c => exact ⟨c, rfl⟩
  | error e => exact absurd ⟨hc, (Counts.ofFields_eq_error_iff e).1 hread⟩ (h e)

/-- A row that is not flawed adds a class, unless it is ignored, and its entry, if it has one. -/
theorem Tally.addRow_ofEntries {names : List Text} {row : Text} (h : ∀ e, ¬RowFlaw names row e)
    (files classes : Nat) (es : List Entry) (file : Text) :
    ∃ r, Row.ofText names row = .ok r ∧ (ofEntries files classes es).addRow file row r =
      ofEntries files (classes + if Ignored row then 0 else 1)
        (es ++ (entryOf? names file row).toList) := by
  by_cases hi : Ignored row
  · refine ⟨.ignored, Row.ofText_of_ignored hi, ?_⟩
    simp [entryOf?, hi, hi.not_counted, addRow]
  · by_cases hg : Generated names row
    · refine ⟨.generated, Row.ofText_of_generated hg, ?_⟩
      simp [entryOf?, hi, hg.not_counted, addRow, ofEntries]
    · have hc : Counted names row := ⟨hi, hg⟩
      obtain ⟨c, hcounts⟩ := exists_counts? h hc
      have hread : Counts.ofFields row (Text.fields '+' row) = .ok c := by
        rw [← Counts.toOption_ofFields] at hcounts
        cases hr : Counts.ofFields row (Text.fields '+' row) <;> rw [hr] at hcounts <;>
          cases hcounts
        rfl
      refine ⟨.counted c, by rw [Row.ofText_of_counted hc, hread]; rfl, ?_⟩
      rw [entryOf?, if_pos hc, hcounts, Option.map_some, Option.toList_some, if_neg hi]
      exact addEntry_ofEntries files (classes + 1) es ⟨file, row, c⟩

/-- The number of rows that are not ignored. -/
def classCount (rs : List Text) : Nat :=
  rs.countP fun row => !decide (Ignored row)

theorem Tally.foldlM_addRow {names : List Text} {rs : List Text}
    (h : ∀ row ∈ rs, ∀ e, ¬RowFlaw names row e) (files classes : Nat) (es : List Entry)
    (file : Text) :
    rs.foldlM (fun t row => return t.addRow file row (← Row.ofText names row))
        (ofEntries files classes es) =
      .ok (ofEntries files (classes + classCount rs) (es ++ fileEntries names file rs)) := by
  induction rs generalizing classes es with
  | nil => simp [classCount, fileEntries, pure, Except.pure]
  | cons row rs ih =>
    obtain ⟨r, hr, hadd⟩ := addRow_ofEntries (h row List.mem_cons_self) files classes es file
    have hrest := ih (fun row' hmem => h row' (List.mem_cons_of_mem row hmem))
      (classes + if Ignored row then 0 else 1) (es ++ (entryOf? names file row).toList)
    have hentries : fileEntries names file (row :: rs) =
        (entryOf? names file row).toList ++ fileEntries names file rs := by
      rw [fileEntries, List.filterMap_cons]
      cases entryOf? names file row <;> rfl
    have hcount : classCount (row :: rs) = (if Ignored row then 0 else 1) + classCount rs := by
      rw [classCount, List.countP_cons, Nat.add_comm]
      by_cases hi : Ignored row <;> simp [hi, classCount]
    rw [List.foldlM_cons, hr, hentries, hcount, ← Nat.add_assoc, ← List.append_assoc, ← hrest,
      ← hadd]
    rfl

/-- A run without flawed rows leaves the tally of its entries. -/
theorem feedAll_passthrough {rules : Rules} {reports : List Named}
    (h : Flawless rules.generatedNames reports) (files classes : Nat) (es : List Entry) :
    feedAll rules (.passthrough (Tally.ofEntries files classes es)) reports =
      .ok (.passthrough (Tally.ofEntries (files + reports.length)
        (classes + classCount (allRows reports))
        (es ++ entries rules.generatedNames reports))) := by
  induction reports generalizing files classes es with
  | nil => simp [feedAll, allRows, classCount, entries]
  | cons r reports ih =>
    have hrows : ∀ row ∈ rows r.contents, ∀ e, ¬RowFlaw rules.generatedNames row e :=
      fun row hrow => h row (List.mem_append_left _ hrow)
    have hrest : Flawless rules.generatedNames reports :=
      fun row hrow => h row (List.mem_append_right _ hrow)
    have hfile := Tally.foldlM_addRow hrows (files + 1) classes es r.name
    have hcount : classCount (allRows (r :: reports)) =
        classCount (rows r.contents) + classCount (allRows reports) :=
      List.countP_append
    have hfeed : (ReportTally.Tally.passthrough (Tally.ofEntries files classes es)).feed rules
        r.name r.contents = .ok (.passthrough (Tally.ofEntries (files + 1)
          (classes + classCount (rows r.contents))
          (es ++ fileEntries rules.generatedNames r.name (rows r.contents)))) := by
      rw [ReportTally.Tally.feed, Tally.addFile]
      exact congrArg (· >>= fun t => pure (ReportTally.Tally.passthrough t)) hfile
    rw [feedAll_cons, hfeed, hcount, entries, List.flatMap_cons, List.length_cons,
      Nat.add_comm reports.length, ← Nat.add_assoc, ← Nat.add_assoc, ← List.append_assoc]
    exact ih hrest _ _ _

/-- Without flawed rows every counted row has an entry. -/
theorem length_entries {names : List Text} {reports : List Named} (h : Flawless names reports) :
    (entries names reports).length =
      (allRows reports).countP fun row => decide (Counted names row) := by
  rw [entries, allRows, List.length_flatMap, List.countP_flatMap]
  congr 1
  refine List.map_congr_left fun r hr => ?_
  rw [fileEntries, List.length_filterMap_eq_countP]
  refine List.countP_congr fun row hrow => ?_
  have hread := exists_counts? (h row (List.mem_flatMap.2 ⟨r, hr, hrow⟩))
  simp only [entryOf?]
  split_ifs with hc
  · obtain ⟨c, hcounts⟩ := hread hc
    simp [hcounts, hc]
  · simp [hc]

/-! ## Whole runs -/

/-- The tally of reports without flawed rows. -/
def Tally.ofReports (names : List Text) (reports : List Named) : Tally :=
  ofEntries reports.length (classCount (allRows reports)) (entries names reports)

theorem feedAll_start_passthrough {rules : Rules} {reports : List Named}
    (h : Flawless rules.generatedNames reports) :
    feedAll rules (.passthrough {}) reports =
      .ok (.passthrough (Tally.ofReports rules.generatedNames reports)) := by
  have hrun := feedAll_passthrough h 0 0 []
  simp only [Nat.zero_add, List.nil_append] at hrun
  exact hrun

theorem summarize_passthrough {rules : Rules} {reports : List Named}
    (h : Flawless rules.generatedNames reports) (folder : Text) :
    summarize rules .passthrough folder reports =
      .ok (.passthrough ((Tally.ofReports rules.generatedNames reports).finish folder)) :=
  summarize_of_feedAll (feedAll_start_passthrough h) rfl

/-- A run that succeeds has read no flawed row. -/
theorem flawless_of_feedAll {rules : Rules} {t : Tally} {reports : List Named}
    {t' : ReportTally.Tally} (h : feedAll rules (.passthrough t) reports = .ok t') :
    Flawless rules.generatedNames reports := by
  intro row hrow e he
  obtain ⟨r, hr, hmem⟩ := List.mem_flatMap.1 hrow
  obtain ⟨e', he'⟩ := firstError_of_mem hmem he
  have hrejects : Rejects rules .passthrough r.contents e' := he'
  obtain ⟨x, hx⟩ := exists_firstRejected hr hrejects
  have hfail := (feedAll_eq_error_iff rules (.passthrough t) reports x).2 hx
  rw [h] at hfail
  cases hfail

/-- The summary of a run is that of the entries. -/
theorem eq_of_summarize_passthrough {rules : Rules} {folder : Text} {reports : List Named}
    {s : Summary} (h : summarize rules .passthrough folder reports = .ok (.passthrough s)) :
    Flawless rules.generatedNames reports ∧
      s = (Tally.ofReports rules.generatedNames reports).finish folder := by
  have hflawless : Flawless rules.generatedNames reports := by
    cases hrun : feedAll rules (.passthrough {}) reports with
    | ok t => exact flawless_of_feedAll hrun
    | error x =>
      rw [summarize, ReportTally.Tally.start, hrun] at h
      cases h
  refine ⟨hflawless, ?_⟩
  rw [summarize_passthrough hflawless] at h
  cases h
  rfl

end ReportTally.Passthrough
