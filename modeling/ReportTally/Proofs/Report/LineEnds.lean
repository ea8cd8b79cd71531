import ReportTally.Proofs.Text.LineEnds
import ReportTally.Proofs.Trace.Reading
import ReportTally.Report.Summary

/-!
# Reports with other line ends

A report may end its lines with line feeds or, as on Windows, with carriage returns and line
feeds. All readers but that of traces see the lines of a report only, and these are the same
(`Text.lines_toCrlf`). A trace is read at three levels: its end is trimmed, the banner and load
failures are looked for in the whole text, and the statistics after the banner are cut into
lines. None of them can tell the line ends apart (`finished_toCrlf_iff`, `occurrences_banner_toCrlf`,
`statistics?_toCrlf`).

`summarize_toCrlf` puts this together: every reader and every run gives the same result, flaws
included.
-/

namespace ReportTally

open Text (toCrlf OneLine)

variable {t s : Text} {rules : Rules}

/-! ## Traces -/

namespace Trace

theorem oneLine_success : OneLine success := by
  constructor <;> decide

theorem oneLine_loadFailure : OneLine loadFailure := by
  constructor <;> decide

theorem oneLine_banner : OneLine banner := by
  constructor <;> decide

theorem finished_toCrlf_iff : Finished (toCrlf t) ↔ Finished t := by
  rw [Finished, Text.trim_toCrlf, Text.suffix_toCrlf_iff oneLine_success,
    Text.infix_toCrlf_iff oneLine_loadFailure, Finished]

theorem occurrences_banner_toCrlf :
    Text.occurrences banner (toCrlf t) = Text.occurrences banner t :=
  Text.occurrences_toCrlf oneLine_banner headOnce_banner.ne_nil

theorem isNative_toCrlf (ht : '\r' ∉ t) : isNative (toCrlf t) = isNative t := by
  rw [isNative, Text.lines_toCrlf ht, isNative]

/-- The statistics of a trace get the same line ends as the trace. -/
theorem statistics?_toCrlf (h : statistics? t = some s) :
    statistics? (toCrlf t) = some (toCrlf s) := by
  obtain ⟨hf, hone, a, rfl⟩ := statistics?_eq_some_iff.1 h
  refine statistics?_eq_some_iff.2 ⟨finished_toCrlf_iff.2 hf, ?_, toCrlf a, ?_⟩
  · rw [occurrences_banner_toCrlf, hone]
  · rw [Text.toCrlf_append, Text.toCrlf_append, oneLine_banner.toCrlf]

theorem Outcome.ofText_toCrlf (ht : '\r' ∉ t) : ofText (toCrlf t) = ofText t := by
  by_cases hf : Finished t
  · have hf' : Finished (toCrlf t) := finished_toCrlf_iff.2 hf
    by_cases hone : Text.occurrences banner t = 1
    · obtain ⟨s, hs⟩ := exists_statistics? hf hone
      have hlines : '\r' ∉ s := by
        obtain ⟨-, -, a, rfl⟩ := statistics?_eq_some_iff.1 hs
        exact fun h => ht (List.mem_append_right _ h)
      rw [ofText_of_statistics? hs, ofText_of_statistics? (statistics?_toCrlf hs),
        Statistics.ofText, Text.lines_toCrlf hlines, Statistics.ofText]
    · have hone' : Text.occurrences banner (toCrlf t) ≠ 1 := by rwa [occurrences_banner_toCrlf]
      rw [ofText_of_occurrences_ne_one hf hone, ofText_of_occurrences_ne_one hf' hone',
        occurrences_banner_toCrlf]
  · rw [ofText_of_not_finished hf, ofText_of_not_finished fun h => hf (finished_toCrlf_iff.1 h),
      isNative_toCrlf ht]

end Trace

/-! ## The other readers -/

theorem Mapping.Contents.ofText_toCrlf (ht : '\r' ∉ t) : ofText (toCrlf t) = ofText t := by
  rw [ofText, entries, Text.lines_toCrlf ht, ofText, entries]

theorem Savings.Trace.ofText_toCrlf (ht : '\r' ∉ t) : ofText (toCrlf t) = ofText t := by
  rw [ofText, Text.lines_toCrlf ht, ofText]

theorem Passthrough.rows_toCrlf (ht : '\r' ∉ t) : rows (toCrlf t) = rows t := by
  rw [rows, Text.lines_toCrlf ht, rows]

theorem Classes.ofText_toCrlf (ht : '\r' ∉ t) (generatedNames : List Text) :
    ofText generatedNames (toCrlf t) = ofText generatedNames t := by
  rw [ofText, Text.lines_toCrlf ht, ofText]

theorem Exceptions.context?_toCrlf (ht : '\r' ∉ t) (contextLines : Nat) :
    context? contextLines (toCrlf t) = context? contextLines t := by
  rw [context?, Text.lines_toCrlf ht, context?]

/-! ## Runs -/

/-- The report with other line ends. -/
def Named.toCrlf (r : Named) : Named :=
  { r with contents := Text.toCrlf r.contents }

theorem Tally.feed_toCrlf (tally : Tally) (file : Text) (ht : '\r' ∉ t) :
    tally.feed rules file (toCrlf t) = tally.feed rules file t := by
  cases tally with
  | traces tally => rw [feed, Trace.Outcome.ofText_toCrlf ht, feed]
  | mappings s => rw [feed, Mapping.Contents.ofText_toCrlf ht, feed]
  | savings tally => rw [feed, Savings.Trace.ofText_toCrlf ht, feed]
  | passthrough tally =>
    rw [feed, Passthrough.Tally.addFile, Passthrough.rows_toCrlf ht, feed,
      Passthrough.Tally.addFile]
  | classes s => rw [feed, Classes.ofText_toCrlf ht, feed]
  | exceptions s => rw [feed, Exceptions.context?_toCrlf ht, feed]

/-- A run stops at the same report, if it does. -/
theorem feedAll_toCrlf {reports : List Named} (h : ∀ r ∈ reports, '\r' ∉ r.contents)
    (tally : Tally) :
    feedAll rules tally (reports.map Named.toCrlf) =
      (feedAll rules tally reports).mapError fun x => (x.1.toCrlf, x.2) := by
  induction reports generalizing tally with
  | nil => rfl
  | cons r reports ih =>
    have hfeed : tally.feed rules r.name (Text.toCrlf r.contents) = _ :=
      tally.feed_toCrlf r.name (h r List.mem_cons_self)
    rw [List.map_cons, feedAll, feedAll, Named.toCrlf, hfeed]
    cases tally.feed rules r.name r.contents with
    | error e => rfl
    | ok tally => exact ih (fun r' hr' => h r' (List.mem_cons_of_mem r hr')) tally

/-- Line ends change nothing. Every reader gives the same result, with the same flaws, and every
summary is the same. A run that stops does so at the same report and for the same flaw. -/
theorem summarize_toCrlf :
    (∀ t : Text, '\r' ∉ t →
      Trace.Outcome.ofText (toCrlf t) = Trace.Outcome.ofText t ∧
      Mapping.Contents.ofText (toCrlf t) = Mapping.Contents.ofText t ∧
      Savings.Trace.ofText (toCrlf t) = Savings.Trace.ofText t ∧
      Passthrough.rows (toCrlf t) = Passthrough.rows t ∧
      (∀ names, Classes.ofText names (toCrlf t) = Classes.ofText names t) ∧
      ∀ n, Exceptions.context? n (toCrlf t) = Exceptions.context? n t) ∧
    ∀ (rules : Rules) (kind : Kind) (folder : Text) (reports : List Named),
      (∀ r ∈ reports, '\r' ∉ r.contents) →
      summarize rules kind folder (reports.map Named.toCrlf) =
        (summarize rules kind folder reports).mapError fun x => (x.1.toCrlf, x.2) := by
  refine ⟨fun t ht => ⟨Trace.Outcome.ofText_toCrlf ht, Mapping.Contents.ofText_toCrlf ht,
    Savings.Trace.ofText_toCrlf ht, Passthrough.rows_toCrlf ht, Classes.ofText_toCrlf ht,
    Exceptions.context?_toCrlf ht⟩, fun rules kind folder reports h => ?_⟩
  rw [summarize, feedAll_toCrlf h, summarize]
  cases feedAll rules (.start kind) reports <;> rfl

/-- A passthrough report with a row that cannot be read: the flaw holds the row, and no carriage
return of its line end. -/
theorem summarize_toCrlf_badRow :
    '\r' ∉ "=== Summary ===\nA+x+1+1+1+1\n".toList ∧
    toCrlf "=== Summary ===\nA+x+1+1+1+1\n".toList =
      "=== Summary ===\r\nA+x+1+1+1+1\r\n".toList ∧
    Passthrough.rows "=== Summary ===\r\nA+x+1+1+1+1\r\n".toList = ["A+x+1+1+1+1".toList] ∧
    summarize ⟨[], [], 0⟩ .passthrough [] [⟨['a'], "=== Summary ===\r\nA+x+1+1+1+1\r\n".toList⟩] =
      .error (⟨['a'], "=== Summary ===\r\nA+x+1+1+1+1\r\n".toList⟩,
        .notIntegerField 1 ['x'] "A+x+1+1+1+1".toList) := by
  have hno : '\r' ∉ "=== Summary ===\nA+x+1+1+1+1\n".toList := by decide +kernel
  have hcrlf : toCrlf "=== Summary ===\nA+x+1+1+1+1\n".toList =
      "=== Summary ===\r\nA+x+1+1+1+1\r\n".toList := by decide +kernel
  refine ⟨hno, hcrlf, ?_, ?_⟩
  · rw [← hcrlf, (summarize_toCrlf.1 _ hno).2.2.2.1]
    decide +kernel
  · have hrun := summarize_toCrlf.2 ⟨[], [], 0⟩ .passthrough []
      [⟨['a'], "=== Summary ===\nA+x+1+1+1+1\n".toList⟩] (by simp)
    rw [List.map_singleton, Named.toCrlf, hcrlf] at hrun
    rw [hrun]
    rfl

end ReportTally
