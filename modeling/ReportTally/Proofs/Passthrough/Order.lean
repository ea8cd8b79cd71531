import ReportTally.Proofs.Passthrough.Totals

/-!
# The order of passthrough reports

A run over the same reports in another order has the same entries in another order, so all numbers
and totals agree (`Tally.SameTotals.of_perm`). The ratios are added up as floats and may not. The
file with the most columns of one row does depend on the order: it is the first one with a row of
that many (`Tally.RowWise.hasFirstFile`).
-/

namespace ReportTally.Passthrough

variable {names : List Text} {reports reports' : List Named}

/-- The numbers and totals of two tallies that do not depend on the order of the reports. -/
structure Tally.SameTotals (t t' : Tally) : Prop where
  /-- The files. -/
  files : t'.files = t.files
  /-- The classes. -/
  classes : t'.classes = t.classes
  /-- The counted rows. -/
  counted : t'.counted = t.counted
  /-- The imprecise ones. -/
  imprecise : t'.imprecise = t.imprecise
  /-- The rows with a column that passes through. -/
  withPassthrough : t'.withPassthrough = t.withPassthrough
  /-- The columns of rows with a ratio. -/
  columns : t'.columns = t.columns
  /-- The columns that pass through. -/
  passthrough : t'.passthrough = t.passthrough
  /-- The output columns found. -/
  outputFound : t'.outputFound = t.outputFound
  /-- The input columns found. -/
  inputFound : t'.inputFound = t.inputFound
  /-- The most columns of one row that pass through. -/
  most : t'.most = t.most
  /-- The rows with a ratio above one. -/
  excesses : t'.excesses.Perm t.excesses

/-- A report has a counted row with columns of which this many pass through. -/
def HasRowOf (names : List Text) (most : Counter) (r : Named) : Prop :=
  ∃ row ∈ rows r.contents, Counted names row ∧ ∃ c, counts? row = some c ∧
    0 ≤ c.outputFound.toInt ∧ 0 ≤ c.inputFound.toInt ∧ c.passthrough = most

/-- If any columns pass through, the file with the most of one row is that of the first report with
a row of that many. -/
def HasFirstFile (names : List Text) (reports : List Named) (t : Tally) : Prop :=
  0 < t.most.toInt → ∃ pre r post, reports = pre ++ r :: post ∧ HasRowOf names t.most r ∧
    (∀ r' ∈ pre, ¬HasRowOf names t.most r') ∧ t.fileWithMost = some r.name

/-! ## Another order -/

theorem entries_perm (h : reports'.Perm reports) :
    (entries names reports').Perm (entries names reports) :=
  h.flatMap_right _

theorem withColumns_perm (h : reports'.Perm reports) :
    (withColumns names reports').Perm (withColumns names reports) :=
  (entries_perm h).filter _

theorem withRatio_perm (h : reports'.Perm reports) :
    (withRatio names reports').Perm (withRatio names reports) :=
  (entries_perm h).filter _

theorem cappedSum_perm (value : Counts → Counter) {es es' : List Entry} (h : es'.Perm es) :
    cappedSum value es' = cappedSum value es := by
  rw [cappedSum, cappedSum, Counter.exact_perm (h.map _)]

theorem Flawless.perm (h : Flawless names reports) (hp : reports'.Perm reports) :
    Flawless names reports' := by
  intro row hrow
  exact h row ((hp.flatMap_right _).mem_iff.1 hrow)

/-- The most columns of one row are those of a row, if there are any. -/
theorem IsMost.le {es es' : List Entry} {most most' : Counter} {file file' : Option Text}
    (h : IsMost es most file) (h' : IsMost es' most' file') (hmem : ∀ e ∈ es, e ∈ es') :
    most.toInt ≤ most'.toInt := by
  have hnonneg := h'.nonneg
  obtain ⟨-, ⟨rfl, -⟩ | ⟨pre, e, post, rfl, rfl, -⟩⟩ := h
  · exact hnonneg
  · exact h'.1 e (hmem e (by simp))

theorem Tally.SameTotals.of_perm {t t' : Tally} (ht : t.RowWise names reports)
    (ht' : t'.RowWise names reports') (h : reports'.Perm reports) : t.SameTotals t' := by
  have hrows : (allRows reports').Perm (allRows reports) := h.flatMap_right _
  have hratio : (withRatio names reports').Perm (withRatio names reports) := withRatio_perm h
  have hcolumns : (withColumns names reports').Perm (withColumns names reports) :=
    withColumns_perm h
  constructor
  case files => rw [ht.files, ht'.files, h.length_eq]
  case classes => rw [ht.classes, ht'.classes, hrows.countP_eq]
  case counted => rw [ht.counted, ht'.counted, hrows.countP_eq]
  case imprecise => rw [ht.imprecise, ht'.imprecise, (entries_perm h).countP_eq]
  case withPassthrough => rw [ht.withPassthrough, ht'.withPassthrough, hratio.countP_eq]
  case columns =>
    rw [← Int64.toInt_inj, ht.columns, ht'.columns, cappedSum_perm _ hratio]
  case passthrough =>
    rw [← Int64.toInt_inj, ht.passthrough, ht'.passthrough, cappedSum_perm _ hratio]
  case outputFound =>
    rw [← Int64.toInt_inj, ht.outputFound, ht'.outputFound, cappedSum_perm _ hcolumns]
  case inputFound =>
    rw [← Int64.toInt_inj, ht.inputFound, ht'.inputFound, cappedSum_perm _ hcolumns]
  case most =>
    rw [← Int64.toInt_inj]
    exact Int.le_antisymm (ht'.most.le ht.most fun e => hratio.mem_iff.1)
      (ht.most.le ht'.most fun e => hratio.mem_iff.2)
  case excesses =>
    rw [ht.excesses, ht'.excesses]
    exact (hratio.filter _).map _

/-! ## The first file -/

theorem mem_fileEntries_iff {file : Text} {rs : List Text} {e : Entry} :
    e ∈ fileEntries names file rs ↔ e.file = file ∧ e.row ∈ rs ∧ Counted names e.row ∧
      counts? e.row = some e.counts := by
  rw [fileEntries, List.mem_filterMap]
  constructor
  · rintro ⟨row, hrow, he⟩
    rw [entryOf?] at he
    split_ifs at he with hc
    obtain ⟨c, hcounts, rfl⟩ := Option.map_eq_some_iff.1 he
    exact ⟨rfl, hrow, hc, hcounts⟩
  · rintro ⟨rfl, hrow, hc, hcounts⟩
    refine ⟨e.row, hrow, ?_⟩
    rw [entryOf?, if_pos hc, hcounts]
    rfl

/-- The entries of a report that have a ratio. -/
def preciseEntries (names : List Text) (r : Named) : List Entry :=
  (fileEntries names r.name (rows r.contents)).filter fun e => e.counts.isPrecise

theorem withRatio_eq_flatMap (names : List Text) (reports : List Named) :
    withRatio names reports = reports.flatMap (preciseEntries names) :=
  List.filter_flatMap

/-- If some columns pass through then a row with columns has a ratio. -/
theorem hasRowOf_iff {most : Counter} (hpos : 0 < most.toInt) (r : Named) :
    HasRowOf names most r ↔ ∃ e ∈ preciseEntries names r, e.counts.passthrough = most := by
  simp only [preciseEntries, List.mem_filter, mem_fileEntries_iff, Counts.isPrecise,
    Counts.hasColumns, Bool.and_eq_true, decide_eq_true_eq]
  constructor
  · rintro ⟨row, hrow, hc, c, hcounts, ho, hi, rfl⟩
    exact ⟨⟨r.name, row, c⟩, ⟨⟨rfl, hrow, hc, hcounts⟩, ⟨ho, hi⟩, Int.le_of_lt hpos⟩, rfl⟩
  · rintro ⟨e, ⟨⟨-, hrow, hc, hcounts⟩, ⟨ho, hi⟩, -⟩, rfl⟩
    exact ⟨e.row, hrow, hc, e.counts, hcounts, ho, hi, rfl⟩

theorem Tally.RowWise.hasFirstFile {t : Tally} (ht : t.RowWise names reports) :
    HasFirstFile names reports t := by
  intro hpos
  obtain ⟨-, ⟨hzero, -⟩ | ⟨pre, e, post, hes, he, -, hpre, hfile⟩⟩ := ht.most
  · rw [hzero] at hpos
    exact absurd hpos (by decide)
  have hfirst : (withRatio names reports).find? (fun e => e.counts.passthrough = t.most) =
      some e := by
    rw [List.find?_eq_some_iff_append]
    refine ⟨by simpa using he, pre, post, hes, fun e' he' => ?_⟩
    have hlt := hpre e' he'
    simp only [Bool.not_eq_true', decide_eq_false_iff_not]
    rintro heq
    rw [heq] at hlt
    omega
  rw [withRatio_eq_flatMap, List.find?_flatMap, List.findSome?_eq_some_iff] at hfirst
  obtain ⟨before, r, after, rfl, hr, hbefore⟩ := hfirst
  have hmem := List.mem_of_find?_eq_some hr
  have hname : e.file = r.name := (mem_fileEntries_iff.1 (List.mem_filter.1 hmem).1).1
  refine ⟨before, r, after, rfl, (hasRowOf_iff hpos r).2 ⟨e, hmem, he⟩, ?_, by rw [hfile, hname]⟩
  intro r' hr' hhas
  obtain ⟨e', he', hmost⟩ := (hasRowOf_iff hpos r').1 hhas
  have := List.find?_eq_none.1 (hbefore r' hr') e' he'
  simp [hmost] at this

/-- A run over the same reports in another order succeeds as well. All numbers and totals agree,
and in each run the file with the most columns of one row is the first one that has such a row. -/
theorem summary_of_perm {rules : Rules} {folder : Text} {reports reports' : List Named}
    {s : Summary} (h : summarize rules .passthrough folder reports = .ok (.passthrough s))
    (hp : reports'.Perm reports) :
    ∃ s' : Summary, summarize rules .passthrough folder reports' = .ok (.passthrough s') ∧
      s.tally.SameTotals s'.tally ∧ HasFirstFile rules.generatedNames reports s.tally ∧
      HasFirstFile rules.generatedNames reports' s'.tally := by
  obtain ⟨hflawless, rfl⟩ := eq_of_summarize_passthrough h
  have hflawless' := hflawless.perm hp
  have ht := rowWise_ofEntries hflawless
  have ht' := rowWise_ofEntries hflawless'
  exact ⟨_, summarize_passthrough hflawless' folder, .of_perm ht ht' hp, ht.hasFirstFile,
    ht'.hasFirstFile⟩

/-- Two files with the same most columns of one row, in both orders: each time the first one is
named. -/
theorem summary_of_tie :
    ∃ s s' : Summary,
      summarize ⟨[], [], 0⟩ .passthrough []
        [⟨['a'], "=== Summary ===\nA+3+4+1+4+1".toList⟩,
          ⟨['b'], "=== Summary ===\nB+3+5+1+5+1".toList⟩] = .ok (.passthrough s) ∧
      summarize ⟨[], [], 0⟩ .passthrough []
        [⟨['b'], "=== Summary ===\nB+3+5+1+5+1".toList⟩,
          ⟨['a'], "=== Summary ===\nA+3+4+1+4+1".toList⟩] = .ok (.passthrough s') ∧
      s.tally.SameTotals s'.tally ∧ s.tally.fileWithMost = some ['a'] ∧
      s'.tally.fileWithMost = some ['b'] := by
  have hrun := summarize_passthrough (by decide +kernel : Flawless
    (⟨[], [], 0⟩ : Rules).generatedNames
    [⟨['a'], "=== Summary ===\nA+3+4+1+4+1".toList⟩,
      ⟨['b'], "=== Summary ===\nB+3+5+1+5+1".toList⟩]) []
  obtain ⟨s', hrun', hsame, -, -⟩ := summary_of_perm hrun (.swap _ _ [])
  refine ⟨_, s', hrun, hrun', hsame, ?_, ?_⟩
  · decide +kernel
  · obtain ⟨-, rfl⟩ := eq_of_summarize_passthrough hrun'
    decide +kernel

end ReportTally.Passthrough
