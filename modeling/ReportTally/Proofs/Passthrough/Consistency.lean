import ReportTally.Proofs.Number.Ratio
import ReportTally.Proofs.Passthrough.Totals

/-!
# Consistent tallies

The numbers and totals of a tally of passthrough reports constrain each other
(`Tally.Consistent`). Rows of every kind keep them consistent (`Tally.Consistent.addRow`), so they
are at any point of a run that has succeeded so far (`consistent_of_run`), although the totals stop
at the greatest counter.
-/

namespace ReportTally.Passthrough

namespace Tally

/-- What holds between the numbers and the totals of a tally. -/
structure Consistent (t : Tally) : Prop where
  /-- An imprecise row has no column that passes through. -/
  imprecise_add_le : t.imprecise + t.withPassthrough ≤ t.counted
  /-- Counted rows are classes. -/
  counted_le : t.counted ≤ t.classes
  /-- There is a least ratio if some row is precise. -/
  least_isSome : t.least.isSome ↔ t.imprecise < t.counted
  /-- So is there a greatest one. -/
  greatest_isSome : t.greatest.isSome ↔ t.imprecise < t.counted
  /-- There is a file with the most columns that pass through unless no column does. -/
  fileWithMost_isSome : t.fileWithMost.isSome ↔ 0 < t.most.toInt
  /-- The most columns of one row are above zero if some row has any. -/
  most_pos_iff : 0 < t.most.toInt ↔ 0 < t.withPassthrough
  /-- So is their total. -/
  passthrough_pos_iff : 0 < t.passthrough.toInt ↔ 0 < t.withPassthrough
  /-- The most columns of one row are not negative. -/
  most_nonneg : 0 ≤ t.most.toInt
  /-- One row has no more columns that pass through than all rows. -/
  most_le : t.most.toInt ≤ t.passthrough.toInt
  /-- The columns are not negative. -/
  columns_nonneg : 0 ≤ t.columns.toInt
  /-- The columns of precise rows are among the output columns found. -/
  columns_le : t.columns.toInt ≤ t.outputFound.toInt
  /-- The input columns found are not negative. -/
  inputFound_nonneg : 0 ≤ t.inputFound.toInt
  /-- A row with a ratio above one has a column that passes through. -/
  length_excesses_le : t.excesses.length ≤ t.withPassthrough

theorem consistent_start : Consistent {} := by
  constructor <;> decide

variable {t : Tally} {c : Counts}

/-- A row without a precise answer. -/
theorem Consistent.addImprecise (h : t.Consistent) :
    Consistent { t with
      classes := t.classes + 1, counted := t.counted + 1, imprecise := t.imprecise + 1 } where
  __ := h
  imprecise_add_le := by
    have := h.imprecise_add_le
    dsimp only
    omega
  counted_le := Nat.succ_le_succ h.counted_le
  least_isSome := h.least_isSome.trans Nat.succ_lt_succ_iff.symm
  greatest_isSome := h.greatest_isSome.trans Nat.succ_lt_succ_iff.symm

theorem Consistent.addColumns (h : t.Consistent) (hc : c.hasColumns = true) :
    (t.addColumns c).Consistent where
  __ := h
  columns_le := by
    have hle := h.columns_le
    have hmax := Counter.toInt_le_greatest t.columns
    have ho := h.columns_nonneg.trans hle
    simp only [Counts.hasColumns, Bool.and_eq_true, decide_eq_true_eq] at hc
    rw [Tally.addColumns, Counter.toInt_add_of_nonneg ho hc.1]
    dsimp only
    omega
  inputFound_nonneg := by
    have hnonneg := h.inputFound_nonneg
    have hmax : 0 ≤ Counter.greatest := by decide
    simp only [Counts.hasColumns, Bool.and_eq_true, decide_eq_true_eq] at hc
    rw [Tally.addColumns, Counter.toInt_add_of_nonneg hnonneg hc.2]
    omega

/-- A ratio above one needs a column that passes through. -/
theorem pos_of_one_lt_rowRatio (hc : c.isPrecise = true) (h : 1 < rowRatio c) :
    0 < c.passthrough.toInt := by
  simp only [Counts.isPrecise, Counts.hasColumns, Bool.and_eq_true, decide_eq_true_eq] at hc
  obtain ⟨⟨ho, -⟩, hp⟩ := hc
  obtain ⟨hpos, hlt⟩ := (Binary64.one_lt_ratio_ofCounter_iff hp ho).1 h
  exact hpos.trans (Binary64.le_of_ofCounter_lt ho hp hlt)

/-- A row with a ratio. -/
theorem Consistent.addRatio (h : t.Consistent) (hc : c.isPrecise = true) (file row : Text) :
    (({ t with classes := t.classes + 1, counted := t.counted + 1 }.addColumns c).addRatio
      file row c).Consistent := by
  have hratio := pos_of_one_lt_rowRatio hc
  simp only [Counts.isPrecise, Counts.hasColumns, Bool.and_eq_true, decide_eq_true_eq] at hc
  obtain ⟨⟨ho, hi⟩, hp⟩ := hc
  have hcounted := h.imprecise_add_le
  have hmost := h.most_nonneg
  have hmostLe := h.most_le
  have hmostPos := h.most_pos_iff
  have hcolumns := h.columns_nonneg
  have hmax := Counter.toInt_le_greatest c.passthrough
  have hmax' := Counter.toInt_le_greatest t.most
  have hpass := Counter.toInt_add_of_nonneg (hmost.trans hmostLe) hp
  simp only [Tally.addColumns, Tally.addRatio, Int64.lt_iff_toInt_lt, Int64.toInt_zero]
  constructor <;> dsimp only
  case imprecise_add_le => split_ifs <;> omega
  case counted_le =>
    have := h.counted_le
    omega
  case least_isSome =>
    simp
    omega
  case greatest_isSome =>
    simp
    omega
  case fileWithMost_isSome =>
    split_ifs
    · simp
      omega
    · exact h.fileWithMost_isSome
  case most_pos_iff => split_ifs <;> omega
  case passthrough_pos_iff =>
    have := h.passthrough_pos_iff
    rw [hpass]
    split_ifs <;> omega
  case most_nonneg => split_ifs <;> omega
  case most_le =>
    rw [hpass]
    split_ifs <;> omega
  case columns_nonneg =>
    rw [Counter.toInt_add_of_nonneg hcolumns ho]
    omega
  case columns_le =>
    have := h.columns_le
    rw [Counter.toInt_add_of_nonneg hcolumns ho,
      Counter.toInt_add_of_nonneg (hcolumns.trans h.columns_le) ho]
    omega
  case inputFound_nonneg =>
    have := h.inputFound_nonneg
    rw [Counter.toInt_add_of_nonneg h.inputFound_nonneg hi]
    omega
  case length_excesses_le =>
    have := h.length_excesses_le
    by_cases hone : 1 < rowRatio c
    · rw [if_pos hone, if_pos (hratio hone), List.length_append, List.length_singleton]
      omega
    · rw [if_neg hone]
      exact this.trans (Nat.le_add_right _ _)

/-- A row of any kind keeps a tally consistent. -/
theorem Consistent.addRow (h : t.Consistent) (file row : Text) (r : Row) :
    (t.addRow file row r).Consistent := by
  cases r with
  | ignored => exact h
  | generated => exact { h with counted_le := h.counted_le.trans (Nat.le_succ _) }
  | counted c =>
    have hadd : t.addRow file row (.counted c) =
        { t with classes := t.classes + 1 }.addEntry ⟨file, row, c⟩ := rfl
    rw [hadd]
    obtain ⟨-, -, heq⟩ | ⟨hc, -, heq⟩ | ⟨-, hc, heq⟩ :=
      addEntry_cases { t with classes := t.classes + 1 } ⟨file, row, c⟩
    · rw [heq]
      exact h.addImprecise
    · rw [heq]
      exact (h.addColumns hc).addImprecise
    · rw [heq]
      exact h.addRatio hc file row

theorem Consistent.addFile (h : t.Consistent) {names : List Text} {file contents : Text}
    {t' : Tally} (hfile : t.addFile names file contents = .ok t') : t'.Consistent := by
  have hstart : Consistent { t with files := t.files + 1 } := { h with }
  refine foldlM_preserves ?_ (rows contents) hstart hfile
  intro s row s' hs hrow
  cases hread : Row.ofText names row with
  | error e =>
    rw [hread] at hrow
    cases hrow
  | ok r =>
    rw [hread] at hrow
    cases hrow
    exact hs.addRow file row r

theorem Consistent.feedAll (h : t.Consistent) {rules : Rules} {reports : List Named}
    {t' : Tally} (hrun : feedAll rules (.passthrough t) reports = .ok (.passthrough t')) :
    t'.Consistent := by
  induction reports generalizing t with
  | nil =>
    cases hrun
    exact h
  | cons r reports ih =>
    rw [feedAll_cons, ReportTally.Tally.feed] at hrun
    cases hfile : t.addFile rules.generatedNames r.name r.contents with
    | error e =>
      rw [hfile] at hrun
      cases hrun
    | ok s =>
      rw [hfile] at hrun
      exact ih (h.addFile hfile) hrun

/-- Every counted row is imprecise or has a ratio. -/
theorem counted_ofReports (names : List Text) (reports : List Named) :
    (ofReports names reports).counted =
      (withRatio names reports).length + (ofReports names reports).imprecise := by
  have hcounted : (ofReports names reports).counted = 0 + (entries names reports).length :=
    counted_foldl_addEntry _ _
  have himprecise : (ofReports names reports).imprecise =
      0 + (entries names reports).countP fun e => !e.counts.isPrecise :=
    imprecise_foldl_addEntry _ _
  rw [hcounted, himprecise, Nat.zero_add, Nat.zero_add, withRatio, ← List.countP_eq_length_filter]
  simpa using List.length_eq_countP_add_countP fun e : Entry => e.counts.isPrecise

end Tally

/-- After any sequence of files that are all read, the tally is consistent, and its number of
precise rows is exact: it counts the rows with a ratio. -/
theorem consistent_of_run {rules : Rules} {reports : List Named} {t : Tally}
    (h : feedAll rules (.passthrough {}) reports = .ok (.passthrough t)) :
    t.Consistent ∧ t.precise + t.imprecise = t.counted ∧
      t.precise = (withRatio rules.generatedNames reports).length := by
  have hconsistent := Tally.consistent_start.feedAll h
  have hreports : t = Tally.ofReports rules.generatedNames reports := by
    rw [feedAll_start_passthrough (flawless_of_feedAll h)] at h
    cases h
    rfl
  have hcounted := Tally.counted_ofReports rules.generatedNames reports
  rw [← hreports] at hcounted
  refine ⟨hconsistent, ?_, ?_⟩
  · rw [Tally.precise]
    omega
  · rw [Tally.precise]
    omega

/-- Two files with a row without a precise passthrough, one with a ratio of a half and one with a
ratio of zero. -/
theorem consistent_of_twoFiles :
    ∃ t : Tally, feedAll ⟨[], [['G']], 0⟩ (.passthrough {})
        [⟨['r'], "=== Summary ===\nG+?+?\nA+-1+4+5+6+7\n".toList⟩,
          ⟨['s'], "=== Summary ===\nB+1+2+3+4+5\nC+0+0+3+4+5".toList⟩] = .ok (.passthrough t) ∧
      t.Consistent ∧ t.precise + t.imprecise = t.counted ∧ t.precise = 2 := by
  have hrun := feedAll_start_passthrough (by decide +kernel : Flawless
    (⟨[], [['G']], 0⟩ : Rules).generatedNames
    [⟨['r'], "=== Summary ===\nG+?+?\nA+-1+4+5+6+7\n".toList⟩,
      ⟨['s'], "=== Summary ===\nB+1+2+3+4+5\nC+0+0+3+4+5".toList⟩])
  obtain ⟨hconsistent, hexact, hprecise⟩ := consistent_of_run hrun
  refine ⟨_, hrun, hconsistent, hexact, hprecise.trans ?_⟩
  decide +kernel

end ReportTally.Passthrough
