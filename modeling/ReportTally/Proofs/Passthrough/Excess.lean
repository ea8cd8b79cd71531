import ReportTally.Proofs.Number.Ratio
import ReportTally.Proofs.Passthrough.Totals

/-!
# Rows with a ratio above one

A row is listed if its ratio is above one, and the ratio is a quotient of floats. It is zero if no
output column was found, and it is one if both counts have the same nearest float. Such rows can
hide that more columns pass through than were found (`Counts.HidesExcess`); only counts above
`2 ^ 53` do so by rounding. If there is no listed row and no such row, then no more columns pass
through than were found in total (`excesses_of_run`).
-/

namespace ReportTally.Passthrough

open Binary64 (ofCounter)

variable {names : List Text} {reports : List Named}

/-- More columns of a row pass through than were found, but its ratio is not above one. -/
def Counts.HidesExcess (c : Counts) : Prop :=
  c.outputFound.toInt < c.passthrough.toInt ∧
    (c.outputFound = 0 ∨ ofCounter c.passthrough = ofCounter c.outputFound)

instance (c : Counts) : Decidable c.HidesExcess :=
  inferInstanceAs (Decidable (_ ∧ _))

/-- A row shows an excess in its floats. -/
def Counts.showsExcess (c : Counts) : Bool :=
  0 < c.outputFound.toInt && ofCounter c.outputFound < ofCounter c.passthrough

theorem Counts.one_lt_rowRatio_iff {c : Counts} (ho : 0 ≤ c.outputFound.toInt)
    (hp : 0 ≤ c.passthrough.toInt) : 1 < Tally.rowRatio c ↔ c.showsExcess = true := by
  rw [showsExcess, Bool.and_eq_true, decide_eq_true_eq, decide_eq_true_eq]
  exact Binary64.one_lt_ratio_ofCounter_iff hp ho

/-- A row with more columns that pass through than were found shows or hides it. -/
theorem Counts.le_of_no_excess {c : Counts} (ho : 0 ≤ c.outputFound.toInt)
    (hshow : ¬c.showsExcess = true) (hhide : ¬c.HidesExcess) :
    c.passthrough.toInt ≤ c.outputFound.toInt := by
  by_contra hle
  have hlt : c.outputFound.toInt < c.passthrough.toInt := by omega
  refine hhide ⟨hlt, ?_⟩
  rcases ho.eq_or_lt with hzero | hpos
  · exact Or.inl (Int64.toInt_inj.1 hzero.symm)
  · refine Or.inr (Binary64.ofCounter_eq_of_not_lt ho hlt fun hfloat => hshow ?_).symm
    rw [showsExcess, Bool.and_eq_true, decide_eq_true_eq, decide_eq_true_eq]
    exact ⟨hpos, hfloat⟩

/-- Rounding hides an excess of counts above `2 ^ 53` only. -/
theorem Counts.HidesExcess.lt_passthrough {c : Counts} (h : c.HidesExcess)
    (ho : 0 ≤ c.outputFound.toInt) (hne : c.outputFound ≠ 0) : 2 ^ 53 < c.passthrough.toInt := by
  obtain ⟨hlt, hzero | hround⟩ := h
  · exact absurd hzero hne
  · by_contra hle
    have hfloat := Binary64.ofCounter_lt_of_le ho hlt (not_lt.1 hle)
    rw [hround] at hfloat
    exact absurd (Binary64.le_of_ofCounter_lt ho ho hfloat) (lt_irrefl _)

theorem cappedSum_mono {f g : Counts → Counter} {es : List Entry}
    (h : ∀ e ∈ es, (f e.counts).toInt ≤ (g e.counts).toInt) : cappedSum f es ≤ cappedSum g es := by
  have hexact : Counter.exact (es.map fun e => f e.counts) ≤
      Counter.exact (es.map fun e => g e.counts) := by
    induction es with
    | nil => exact le_refl _
    | cons e es ih =>
      have hhead := h e List.mem_cons_self
      have htail := ih fun e' he' => h e' (List.mem_cons_of_mem e he')
      simp only [List.map_cons, Counter.exact_cons]
      omega
  exact min_le_min_left _ hexact

namespace Tally.RowWise

variable {t : Tally}

/-- The listed rows are those that show an excess. -/
theorem excesses_eq (ht : t.RowWise names reports) : t.excesses =
    ((withRatio names reports).filter fun e => e.counts.showsExcess).map
      fun e => ⟨e.file, e.row, e.ratio⟩ := by
  refine ht.excesses.trans (congrArg _ (List.filter_congr fun e he => ?_))
  obtain ⟨ho, hp⟩ := isPrecise_of_mem he
  rw [Bool.eq_iff_iff, decide_eq_true_eq]
  exact Counts.one_lt_rowRatio_iff ho hp

/-- If no row shows or hides an excess then there is none in total. -/
theorem passthrough_le (ht : t.RowWise names reports) (hnone : t.excesses = [])
    (hhide : ∀ e ∈ withRatio names reports, ¬e.counts.HidesExcess) :
    t.passthrough.toInt ≤ t.columns.toInt := by
  rw [ht.excesses_eq, List.map_eq_nil_iff, List.filter_eq_nil_iff] at hnone
  rw [ht.passthrough, ht.columns]
  refine cappedSum_mono fun e he => ?_
  exact Counts.le_of_no_excess (isPrecise_of_mem he).1 (hnone e he) (hhide e he)

end Tally.RowWise

/-- The listed rows are those that show an excess. A row hides an excess if no output column of it
was found, or by rounding counts above `2 ^ 53`. Without rows that show or hide an excess no more
columns pass through than were found. -/
theorem excesses_of_run {rules : Rules} {folder : Text} {reports : List Named} {s : Summary}
    (h : summarize rules .passthrough folder reports = .ok (.passthrough s)) :
    s.tally.excesses =
        ((withRatio rules.generatedNames reports).filter fun e => e.counts.showsExcess).map
          (fun e => ⟨e.file, e.row, e.ratio⟩) ∧
      (∀ e ∈ withRatio rules.generatedNames reports, e.counts.HidesExcess →
        e.counts.outputFound ≠ 0 → 2 ^ 53 < e.counts.passthrough.toInt) ∧
      (s.tally.excesses = [] →
        (∀ e ∈ withRatio rules.generatedNames reports, ¬e.counts.HidesExcess) →
          s.tally.passthrough.toInt ≤ s.tally.columns.toInt) := by
  obtain ⟨hflawless, rfl⟩ := eq_of_summarize_passthrough h
  have ht := rowWise_ofEntries hflawless
  refine ⟨ht.excesses_eq, fun e he hhide hne => ?_, ht.passthrough_le⟩
  exact hhide.lt_passthrough (isPrecise_of_mem he).1 hne

/-- A row with three of four columns that pass through, and no other row. -/
def fewColumns : List Named :=
  [⟨['r'], "=== Summary ===\nA+3+4+1+4+1".toList⟩]

/-- A row that shows an excess, one that hides it since no column was found, and one that hides it by
rounding. -/
def manyColumns : List Named :=
  [⟨['r'], "=== Summary ===\nA+3+4+1+4+1\nB+5+4+1+4+1\nC+5+0+1+0+1\n".toList ++
    "D+9007199254740993+9007199254740992+0+0+0".toList⟩]

theorem excesses_of_manyColumns :
    (∃ s : Summary, summarize ⟨[], [], 0⟩ .passthrough [] manyColumns = .ok (.passthrough s) ∧
      s.tally.excesses.map (fun x => (x.file, x.row, x.ratio)) =
        [(['r'], "B+5+4+1+4+1".toList, 1.25)] ∧
      ∃ e ∈ withRatio [] manyColumns, e.counts.HidesExcess ∧ e.counts.outputFound ≠ 0 ∧
        2 ^ 53 < e.counts.passthrough.toInt) ∧
    ∃ s : Summary, summarize ⟨[], [], 0⟩ .passthrough [] fewColumns = .ok (.passthrough s) ∧
      s.tally.excesses = [] ∧ s.tally.passthrough.toInt ≤ s.tally.columns.toInt := by
  constructor
  · have hrun := summarize_passthrough (by decide +kernel : Flawless
      (⟨[], [], 0⟩ : Rules).generatedNames manyColumns) []
    obtain ⟨hlisted, hround, -⟩ := excesses_of_run hrun
    obtain ⟨e, he, hhide, hne⟩ : ∃ e ∈ withRatio [] manyColumns,
        e.counts.HidesExcess ∧ e.counts.outputFound ≠ 0 := by
      decide +kernel
    refine ⟨_, hrun, ?_, e, he, hhide, hne, hround e he hhide hne⟩
    rw [hlisted, List.map_map]
    decide +kernel
  · have hrun := summarize_passthrough (by decide +kernel : Flawless
      (⟨[], [], 0⟩ : Rules).generatedNames fewColumns) []
    obtain ⟨hlisted, -, htotal⟩ := excesses_of_run hrun
    have hnone : ((withRatio [] fewColumns).filter fun e => e.counts.showsExcess) = [] := by
      decide +kernel
    have hempty := hlisted.trans (congrArg (List.map _) hnone)
    exact ⟨_, hrun, hempty, htotal hempty (by decide +kernel)⟩

/-- A row with five columns that pass through and none found is not listed. -/
theorem unlisted_of_noColumns :
    ¬∀ (rules : Rules) (folder : Text) (reports : List Named) (s : Summary),
      summarize rules .passthrough folder reports = .ok (.passthrough s) →
        s.tally.excesses = [] → s.tally.passthrough.toInt ≤ s.tally.columns.toInt := by
  intro h
  have hrun := summarize_passthrough (by decide +kernel : Flawless
    (⟨[], [], 0⟩ : Rules).generatedNames
    [⟨['p'], "=== Summary ===\nA+5+0+0+0+0".toList⟩]) []
  have hle := h _ _ _ _ hrun (by decide +kernel)
  revert hle
  decide +kernel

end ReportTally.Passthrough
