import ReportTally.Proofs.Number.Amounts
import ReportTally.Proofs.Passthrough.Totals

/-!
# Least and greatest ratios

The ratio of a row with a ratio is a finite float without a sign, since the counts of the row are
not negative (`isAmount_ratio_of_mem`), so the least and the greatest ratio of a run are chosen
among such floats (`exists_areExtremes`).

`extremes_of_run` says this of a run: the least and the greatest ratio are those of the rows that
have one, and the listed rows are those with a ratio above one, so there are some just if the
greatest ratio is above one.
-/

namespace ReportTally.Passthrough

open Binary64 (ofCounter IsAmount)

variable {names : List Text} {reports : List Named}

/-! ## Ratios of rows -/

theorem isAmount_ratio_of_mem {e : Entry} (h : e ∈ withRatio names reports) : IsAmount e.ratio :=
  Binary64.isAmount_ratio (isPrecise_of_mem h).2 (isPrecise_of_mem h).1

theorem isAmount_of_mem_ratios {r : Float} (h : r ∈ (withRatio names reports).map Entry.ratio) :
    IsAmount r := by
  obtain ⟨e, he, rfl⟩ := List.mem_map.1 h
  exact isAmount_ratio_of_mem he

/-- Two of the ratios, such that all others lie between them. -/
def AreExtremes (ratios : List Float) (least greatest : Float) : Prop :=
  least ∈ ratios ∧ greatest ∈ ratios ∧ ∀ r ∈ ratios, least ≤ r ∧ r ≤ greatest

theorem exists_areExtremes {ratios : List Float} (h : ∀ r ∈ ratios, IsAmount r)
    (hne : ratios ≠ []) : ∃ least greatest, ratios.foldl lower none = some least ∧
      ratios.foldl raise none = some greatest ∧ AreExtremes ratios least greatest := by
  obtain ⟨least, hleast, hlower, hbelow⟩ := Binary64.foldl_choose (· < ·) lower
    IsAmount.lt_irrefl IsAmount.lt_trans (fun _ => rfl) (fun _ _ => rfl) h hne
  obtain ⟨greatest, hgreatest, hraise, habove⟩ := Binary64.foldl_choose (fun x y => y < x) raise
    IsAmount.lt_irrefl (fun hx hy hz hxy hyz => hz.lt_trans hy hx hyz hxy) (fun _ => rfl)
    (fun _ _ => rfl) h hne
  refine ⟨least, greatest, hlower, hraise, hleast, hgreatest, fun r hr => ⟨?_, ?_⟩⟩
  · exact ((h least hleast).le_iff (h r hr)).2 (hbelow r hr)
  · exact ((h r hr).le_iff (h greatest hgreatest)).2 (habove r hr)

/-! ## Runs -/

namespace Tally.RowWise

variable {t : Tally} (ht : t.RowWise names reports)
include ht

theorem extremes_of_empty (hnone : withRatio names reports = []) :
    t.least = none ∧ t.greatest = none ∧ t.excesses = [] := by
  rw [ht.least, ht.greatest, ht.excesses, hnone]
  exact ⟨rfl, rfl, rfl⟩

theorem mem_excesses_iff {x : Excess} : x ∈ t.excesses ↔
    ∃ e ∈ withRatio names reports, 1 < e.ratio ∧ x = ⟨e.file, e.row, e.ratio⟩ := by
  simp only [ht.excesses, List.mem_map, List.mem_filter, decide_eq_true_eq, and_assoc,
    eq_comm (b := x)]

/-- A row is listed just if the greatest ratio is above one. -/
theorem excesses_ne_nil_iff {least greatest : Float}
    (h : AreExtremes ((withRatio names reports).map Entry.ratio) least greatest) :
    t.excesses ≠ [] ↔ 1 < greatest := by
  obtain ⟨-, hmem, hbetween⟩ := h
  have hgreatest := isAmount_of_mem_ratios hmem
  constructor
  · intro hne
    obtain ⟨x, hx⟩ := List.exists_mem_of_ne_nil _ hne
    obtain ⟨e, he, hlt, -⟩ := ht.mem_excesses_iff.1 hx
    have hle := (hbetween e.ratio (List.mem_map_of_mem he)).2
    exact Binary64.isAmount_one.lt_of_lt_of_le (isAmount_ratio_of_mem he) hgreatest hlt hle
  · intro hlt
    obtain ⟨e, he, rfl⟩ := List.mem_map.1 hmem
    exact List.ne_nil_of_mem (ht.mem_excesses_iff.2 ⟨e, he, hlt, rfl⟩)

theorem exists_extremes (hsome : withRatio names reports ≠ []) :
    ∃ least greatest, t.least = some least ∧ t.greatest = some greatest ∧
      AreExtremes ((withRatio names reports).map Entry.ratio) least greatest := by
  rw [ht.least, ht.greatest]
  exact exists_areExtremes (fun _ => isAmount_of_mem_ratios) (by simpa using hsome)

end Tally.RowWise

/-- A run over reports without flawed rows. The ratio of a row is the quotient of its counts, or
zero if no output column was found; it is finite and not negative. Without such rows there is no
extreme ratio and no listed row. Otherwise the least and the greatest ratio are two of the ratios,
with all others between them. The listed rows are those with a ratio above one, in order, so there
are some just if the greatest ratio is above one. -/
theorem extremes_of_run {rules : Rules} {reports : List Named}
    (h : Flawless rules.generatedNames reports) (folder : Text) :
    ∃ s : Summary, summarize rules .passthrough folder reports = .ok (.passthrough s) ∧
      (∀ e ∈ withRatio rules.generatedNames reports,
        e.ratio = (if e.counts.outputFound = 0 then 0
          else ofCounter e.counts.passthrough / ofCounter e.counts.outputFound) ∧
        e.ratio.isFinite = true ∧ 0 ≤ e.ratio) ∧
      (withRatio rules.generatedNames reports = [] →
        s.tally.least = none ∧ s.tally.greatest = none ∧ s.tally.excesses = []) ∧
      (withRatio rules.generatedNames reports ≠ [] →
        ∃ least greatest, s.tally.least = some least ∧ s.tally.greatest = some greatest ∧
          AreExtremes ((withRatio rules.generatedNames reports).map Entry.ratio) least greatest ∧
          (s.tally.excesses ≠ [] ↔ 1 < greatest)) ∧
      s.tally.excesses =
        ((withRatio rules.generatedNames reports).filter fun e => decide (1 < e.ratio)).map
          fun e => ⟨e.file, e.row, e.ratio⟩ := by
  have ht := rowWise_ofEntries h
  refine ⟨_, summarize_passthrough h folder, fun e he => ?_, ht.extremes_of_empty,
    fun hsome => ?_, ht.excesses⟩
  · have hamount := isAmount_ratio_of_mem he
    exact ⟨Binary64.ratio_ofCounter _ _, hamount.isFinite, hamount.zero_le⟩
  · obtain ⟨least, greatest, hleast, hgreatest, hextremes⟩ := ht.exists_extremes hsome
    exact ⟨least, greatest, hleast, hgreatest, hextremes, ht.excesses_ne_nil_iff hextremes⟩

/-- Two files with three rows that have a ratio: the least one is zero, since no output column was
found, and the greatest one is above one, so its row is listed with its file. -/
theorem extremes_of_twoFiles :
    Flawless [['G']]
        [⟨['r'], "=== Summary ===\nG+?+?\nA+3+4+1+4+1\nB+7+0+1+0+1".toList⟩,
          ⟨['s'], "=== Summary ===\nC+-1+2+1+2+1\nD+5+2+1+2+1".toList⟩] ∧
      ∃ s : Summary, summarize ⟨[], [['G']], 0⟩ .passthrough []
        [⟨['r'], "=== Summary ===\nG+?+?\nA+3+4+1+4+1\nB+7+0+1+0+1".toList⟩,
          ⟨['s'], "=== Summary ===\nC+-1+2+1+2+1\nD+5+2+1+2+1".toList⟩] = .ok (.passthrough s) ∧
      (∃ least greatest, s.tally.least = some least ∧ s.tally.greatest = some greatest ∧
        (s.tally.excesses ≠ [] ↔ 1 < greatest)) ∧
      s.tally.excesses.map (fun x => (x.file, x.row)) = [(['s'], "D+5+2+1+2+1".toList)] := by
  have hflawless : Flawless (⟨[], [['G']], 0⟩ : Rules).generatedNames
      [⟨['r'], "=== Summary ===\nG+?+?\nA+3+4+1+4+1\nB+7+0+1+0+1".toList⟩,
        ⟨['s'], "=== Summary ===\nC+-1+2+1+2+1\nD+5+2+1+2+1".toList⟩] := by
    decide +kernel
  obtain ⟨s, hrun, -, -, hsome, hlisted⟩ := extremes_of_run hflawless []
  obtain ⟨least, greatest, hleast, hgreatest, -, habove⟩ := hsome (List.ne_nil_of_length_pos (by
    decide +kernel))
  refine ⟨hflawless, s, hrun, ⟨least, greatest, hleast, hgreatest, habove⟩, ?_⟩
  rw [hlisted, List.map_map]
  decide +kernel

end ReportTally.Passthrough
