import ReportTally.Proofs.Number.Saturation
import ReportTally.Proofs.Passthrough.Entries

/-!
# Totals of passthrough reports

An entry enters the totals in one of three ways (`Tally.addEntry_cases`), so each part of the
tally is a total, a number or a list over the entries of one class: those with columns
(`Tally.foldl_addEntry_of_columns`), or the precise ones among them, which have a ratio
(`Tally.foldl_addEntry_of_precise`).

`Tally.RowWise` lists these parts, and `summary_of_rows` says that a run without flawed rows leaves
just them, and that any other run fails with the first flawed row.
-/

namespace ReportTally.Passthrough

/-! ## What an entry adds -/

/-- Both found counts are there. -/
def Counts.hasColumns (c : Counts) : Bool :=
  0 ≤ c.outputFound.toInt && 0 ≤ c.inputFound.toInt

/-- All three counts that can be negative to say so are there. -/
def Counts.isPrecise (c : Counts) : Bool :=
  c.hasColumns && 0 ≤ c.passthrough.toInt

namespace Tally

/-- An entry without columns, one with columns and no passthrough, and a precise one. -/
theorem addEntry_cases (t : Tally) (e : Entry) :
    e.counts.hasColumns = false ∧ e.counts.isPrecise = false ∧
        t.addEntry e = { t with counted := t.counted + 1, imprecise := t.imprecise + 1 } ∨
      e.counts.hasColumns = true ∧ e.counts.isPrecise = false ∧
        t.addEntry e =
          { t.addColumns e.counts with counted := t.counted + 1, imprecise := t.imprecise + 1 } ∨
      e.counts.hasColumns = true ∧ e.counts.isPrecise = true ∧
        t.addEntry e =
          ({ t with counted := t.counted + 1 }.addColumns e.counts).addRatio e.file e.row
            e.counts := by
  simp only [Counts.isPrecise, Counts.hasColumns, addEntry, addCounts]
  simp only [Int64.lt_iff_toInt_lt, Int64.toInt_zero, Bool.or_eq_true, decide_eq_true_eq]
  split_ifs with h h'
  · refine Or.inl ⟨?_, ?_, rfl⟩ <;> simp <;> omega
  · refine Or.inr (Or.inl ⟨?_, ?_, rfl⟩) <;> simp <;> omega
  · refine Or.inr (Or.inr ⟨?_, ?_, rfl⟩) <;> simp <;> omega

/-- A part that every entry changes in the same way. -/
theorem foldl_addEntry {γ : Type} (part : Tally → γ) (g : γ → Entry → γ)
    (h : ∀ t e, part (addEntry t e) = g (part t) e) (es : List Entry) (t : Tally) :
    part (es.foldl addEntry t) = es.foldl g (part t) :=
  (List.foldl_hom part fun t e => (h t e).symm).symm

/-- A part that columns raise by a counter, and that nothing else changes. -/
theorem foldl_addEntry_of_columns (part : Tally → Counter) (value : Counts → Counter)
    (hnumbers : ∀ t n k, part { t with counted := n, imprecise := k } = part t)
    (hcolumns : ∀ t c, part (addColumns t c) = Counter.add (part t) (value c))
    (hratio : ∀ t file row c, part (addRatio t file row c) = part t) (es : List Entry)
    (t : Tally) : part (es.foldl addEntry t) =
      ((es.filter fun e => e.counts.hasColumns).map fun e => value e.counts).foldl Counter.add
        (part t) := by
  rw [List.foldl_map, List.foldl_filter]
  refine foldl_addEntry part _ (fun t e => ?_) es t
  obtain ⟨hc, -, h⟩ | ⟨hc, -, h⟩ | ⟨hc, -, h⟩ := addEntry_cases t e
  · rw [h, hc, hnumbers]
    rfl
  · rw [h, hc, hnumbers, hcolumns]
    rfl
  · rw [h, hc, hratio, hcolumns, hnumbers t (t.counted + 1) t.imprecise]
    rfl

/-- A part that ratios change, and that nothing else changes. -/
theorem foldl_addEntry_of_precise {γ : Type} (part : Tally → γ) (g : γ → Entry → γ)
    (hnumbers : ∀ t n k, part { t with counted := n, imprecise := k } = part t)
    (hcolumns : ∀ t c, part (addColumns t c) = part t)
    (hratio : ∀ t file row c, part (addRatio t file row c) = g (part t) ⟨file, row, c⟩)
    (es : List Entry) (t : Tally) :
    part (es.foldl addEntry t) =
      (es.filter fun e => e.counts.isPrecise).foldl g (part t) := by
  rw [List.foldl_filter]
  refine foldl_addEntry part _ (fun t e => ?_) es t
  obtain ⟨-, hp, h⟩ | ⟨-, hp, h⟩ | ⟨-, hp, h⟩ := addEntry_cases t e
  · rw [h, hp, hnumbers]
    rfl
  · rw [h, hp, hnumbers, hcolumns]
    rfl
  · rw [h, hp, hratio, hcolumns, hnumbers t (t.counted + 1) t.imprecise]
    rfl

theorem counted_foldl_addEntry (es : List Entry) (t : Tally) :
    (es.foldl addEntry t).counted = t.counted + es.length := by
  rw [foldl_addEntry counted (fun n _ => n + if true then 1 else 0), foldl_count, List.countP_true]
  intro t e
  obtain ⟨-, -, h⟩ | ⟨-, -, h⟩ | ⟨-, -, h⟩ := addEntry_cases t e <;> rw [h] <;> rfl

theorem imprecise_foldl_addEntry (es : List Entry) (t : Tally) :
    (es.foldl addEntry t).imprecise =
      t.imprecise + es.countP fun e => !e.counts.isPrecise := by
  rw [foldl_addEntry imprecise fun n e => n + if !e.counts.isPrecise then 1 else 0]
  · exact foldl_count _ es t.imprecise
  · intro t e
    obtain ⟨-, hp, h⟩ | ⟨-, hp, h⟩ | ⟨-, hp, h⟩ := addEntry_cases t e <;> rw [h, hp] <;> rfl

end Tally

/-! ## The most columns of one row -/

/-- The greatest passthrough of the entries, at least zero, and the file of the first entry that
has it, unless it is zero. -/
def IsMost (es : List Entry) (most : Counter) (file : Option Text) : Prop :=
  (∀ e ∈ es, e.counts.passthrough.toInt ≤ most.toInt) ∧
    (most = 0 ∧ file = none ∨
      ∃ pre e post, es = pre ++ e :: post ∧ e.counts.passthrough = most ∧ 0 < most.toInt ∧
        (∀ e' ∈ pre, e'.counts.passthrough.toInt < most.toInt) ∧ file = some e.file)

theorem IsMost.nonneg {es : List Entry} {most : Counter} {file : Option Text}
    (h : IsMost es most file) : 0 ≤ most.toInt := by
  obtain ⟨-, ⟨rfl, -⟩ | ⟨_, _, _, -, -, hpos, -⟩⟩ := h
  · exact Int.le_refl 0
  · exact Int.le_of_lt hpos

/-- The most columns so far and their file, with one entry more. -/
def raiseMost (x : Counter × Option Text) (e : Entry) : Counter × Option Text :=
  (if x.1 < e.counts.passthrough then e.counts.passthrough else x.1,
    if x.1 < e.counts.passthrough then some e.file else x.2)

theorem IsMost.raise {es : List Entry} {x : Counter × Option Text} (h : IsMost es x.1 x.2)
    (e : Entry) : IsMost (es ++ [e]) (raiseMost x e).1 (raiseMost x e).2 := by
  have hnonneg := h.nonneg
  obtain ⟨hle, hfile⟩ := h
  simp only [raiseMost, Int64.lt_iff_toInt_lt]
  split_ifs with hlt
  · refine ⟨?_, Or.inr ⟨es, e, [], rfl, rfl, by omega, ?_, rfl⟩⟩
    · intro e' he'
      rcases List.mem_append.1 he' with he' | he'
      · have := hle e' he'
        omega
      · obtain rfl := List.mem_singleton.1 he'
        exact Int.le_refl _
    · intro e' he'
      have := hle e' he'
      omega
  · refine ⟨?_, hfile.imp id ?_⟩
    · intro e' he'
      rcases List.mem_append.1 he' with he' | he'
      · exact hle e' he'
      · rw [List.mem_singleton.1 he']
        omega
    · rintro ⟨pre, e', post, rfl, hrest⟩
      exact ⟨pre, e', post ++ [e], by simp, hrest⟩

theorem isMost_foldl_raiseMost (es : List Entry) :
    IsMost es (es.foldl raiseMost (0, none)).1 (es.foldl raiseMost (0, none)).2 := by
  induction es using List.reverseRecOn with
  | nil => exact ⟨by simp, Or.inl ⟨rfl, rfl⟩⟩
  | append_singleton es e ih =>
    rw [List.foldl_append]
    exact ih.raise e

/-! ## Row by row -/

/-- The ratio of a row. -/
def Entry.ratio (e : Entry) : Float :=
  Tally.rowRatio e.counts

/-- The lesser one of the least ratio so far and another one. -/
def lower (least : Option Float) (r : Float) : Option Float :=
  some (match least with | none => r | some x => if r < x then r else x)

/-- The greater one of the greatest ratio so far and another one. -/
def raise (greatest : Option Float) (r : Float) : Option Float :=
  some (match greatest with | none => r | some x => if x < r then r else x)

/-- The entries with columns. -/
def withColumns (names : List Text) (reports : List Named) : List Entry :=
  (entries names reports).filter fun e => e.counts.hasColumns

/-- The precise entries, which have a ratio. -/
def withRatio (names : List Text) (reports : List Named) : List Entry :=
  (entries names reports).filter fun e => e.counts.isPrecise

/-- The exact sum of a count over entries, or the greatest counter if the sum is greater. -/
def cappedSum (value : Counts → Counter) (es : List Entry) : Int :=
  min Counter.greatest (Counter.exact (es.map fun e => value e.counts))

/-- What the rows of reports add up to, part by part. -/
structure Tally.RowWise (names : List Text) (reports : List Named) (t : Tally) : Prop where
  /-- Every report is a file. -/
  files : t.files = reports.length
  /-- Every row that is not ignored is a class. -/
  classes : t.classes = (allRows reports).countP fun row => decide ¬Ignored row
  /-- The counted rows are those that are not generated either. -/
  counted : t.counted = (allRows reports).countP fun row => decide (Counted names row)
  /-- A counted row is imprecise if one of its first three counts is negative. -/
  imprecise : t.imprecise = (entries names reports).countP fun e =>
    decide (e.counts.outputFound.toInt < 0 ∨ e.counts.inputFound.toInt < 0 ∨
      e.counts.passthrough.toInt < 0)
  /-- Output columns are found in the rows with columns. -/
  outputFound :
    t.outputFound.toInt = cappedSum Counts.outputFound (withColumns names reports)
  /-- So are input columns. -/
  inputFound : t.inputFound.toInt = cappedSum Counts.inputFound (withColumns names reports)
  /-- Their schemas are added up from left to right, as a schema may be given as negative. -/
  outputSchema : t.outputSchema =
    Counter.total ((withColumns names reports).map fun e => e.counts.outputSchema)
  /-- So are the input schemas. -/
  inputSchema : t.inputSchema =
    Counter.total ((withColumns names reports).map fun e => e.counts.inputSchema)
  /-- The columns of the rows with a ratio. -/
  columns : t.columns.toInt = cappedSum Counts.outputFound (withRatio names reports)
  /-- Those that pass through. -/
  passthrough : t.passthrough.toInt = cappedSum Counts.passthrough (withRatio names reports)
  /-- The precise rows with a column that passes through. -/
  withPassthrough : t.withPassthrough =
    (withRatio names reports).countP fun e => decide (0 < e.counts.passthrough.toInt)
  /-- The ratios, added up from left to right. -/
  ratios : t.ratios = ((withRatio names reports).map Entry.ratio).foldl (· + ·) 0
  /-- The least ratio. -/
  least : t.least = ((withRatio names reports).map Entry.ratio).foldl lower none
  /-- The greatest ratio. -/
  greatest : t.greatest = ((withRatio names reports).map Entry.ratio).foldl raise none
  /-- The most columns that pass through, and the first file with a row of that many. -/
  most : IsMost (withRatio names reports) t.most t.fileWithMost
  /-- The rows with a ratio above one, in order. -/
  excesses : t.excesses = ((withRatio names reports).filter fun e => decide (1 < e.ratio)).map
    fun e => ⟨e.file, e.row, e.ratio⟩

theorem Counts.isPrecise_eq_false_iff (c : Counts) : c.isPrecise = false ↔
    c.outputFound.toInt < 0 ∨ c.inputFound.toInt < 0 ∨ c.passthrough.toInt < 0 := by
  simp only [isPrecise, hasColumns, Bool.and_eq_false_iff, decide_eq_false_iff_not, Int.not_le,
    or_assoc]

/-- The total of counts that are not negative. -/
theorem toInt_total_eq_cappedSum {value : Counts → Counter} {es : List Entry}
    (h : ∀ e ∈ es, 0 ≤ (value e.counts).toInt) :
    (Counter.total (es.map fun e => value e.counts)).toInt = cappedSum value es :=
  Counter.toInt_total_of_nonneg (List.forall_mem_map.2 h)

theorem hasColumns_of_mem {names : List Text} {reports : List Named} {e : Entry}
    (h : e ∈ withColumns names reports) :
    0 ≤ e.counts.outputFound.toInt ∧ 0 ≤ e.counts.inputFound.toInt := by
  simpa [Counts.hasColumns] using (List.mem_filter.1 h).2

theorem isPrecise_of_mem {names : List Text} {reports : List Named} {e : Entry}
    (h : e ∈ withRatio names reports) :
    0 ≤ e.counts.outputFound.toInt ∧ 0 ≤ e.counts.passthrough.toInt := by
  have := (List.mem_filter.1 h).2
  simp only [Counts.isPrecise, Counts.hasColumns, Bool.and_eq_true, decide_eq_true_eq] at this
  exact ⟨this.1.1, this.2⟩

open Passthrough.Tally in
/-- The tally of the entries of reports without flawed rows is given row by row. -/
theorem rowWise_ofEntries {names : List Text} {reports : List Named} (h : Flawless names reports) :
    RowWise names reports
      (ofEntries reports.length (classCount (allRows reports)) (entries names reports)) := by
  have total (part : Tally → Counter) value hnumbers hcolumns hratio :=
    foldl_addEntry_of_columns part value hnumbers hcolumns hratio (entries names reports) {}
  have fold {γ : Type} (part : Tally → γ) g hnumbers hcolumns hratio :=
    foldl_addEntry_of_precise part g hnumbers hcolumns hratio (entries names reports) {}
  constructor
  case files => rfl
  case classes => simp [ofEntries, classCount]
  case counted => exact (counted_foldl_addEntry _ _).trans (by simpa using length_entries h)
  case imprecise =>
    refine (imprecise_foldl_addEntry _ _).trans ?_
    rw [Nat.zero_add]
    refine List.countP_congr fun e _ => ?_
    simp [Counts.isPrecise_eq_false_iff]
  case outputFound =>
    rw [← toInt_total_eq_cappedSum fun e he => (hasColumns_of_mem he).1]
    exact congrArg Int64.toInt
      (total outputFound _ (fun _ _ _ => rfl) (fun _ _ => rfl) fun _ _ _ _ => rfl)
  case inputFound =>
    rw [← toInt_total_eq_cappedSum fun e he => (hasColumns_of_mem he).2]
    exact congrArg Int64.toInt
      (total inputFound _ (fun _ _ _ => rfl) (fun _ _ => rfl) fun _ _ _ _ => rfl)
  case outputSchema =>
    exact total outputSchema _ (fun _ _ _ => rfl) (fun _ _ => rfl) fun _ _ _ _ => rfl
  case inputSchema =>
    exact total inputSchema _ (fun _ _ _ => rfl) (fun _ _ => rfl) fun _ _ _ _ => rfl
  case columns =>
    rw [← toInt_total_eq_cappedSum fun e he => (isPrecise_of_mem he).1, Counter.total,
      List.foldl_map]
    exact congrArg Int64.toInt
      (fold columns _ (fun _ _ _ => rfl) (fun _ _ => rfl) fun _ _ _ _ => rfl)
  case passthrough =>
    rw [← toInt_total_eq_cappedSum fun e he => (isPrecise_of_mem he).2, Counter.total,
      List.foldl_map]
    exact congrArg Int64.toInt
      (fold passthrough _ (fun _ _ _ => rfl) (fun _ _ => rfl) fun _ _ _ _ => rfl)
  case withPassthrough =>
    refine (fold withPassthrough (fun n e => n + if 0 < e.counts.passthrough then 1 else 0)
      (fun _ _ _ => rfl) (fun _ _ => rfl) fun _ _ _ _ => rfl).trans ?_
    simpa [Int64.lt_iff_toInt_lt, withRatio] using
      foldl_count (fun e => decide (0 < e.counts.passthrough)) (withRatio names reports) 0
  case ratios =>
    rw [List.foldl_map]
    exact fold ratios _ (fun _ _ _ => rfl) (fun _ _ => rfl) fun _ _ _ _ => rfl
  case least =>
    rw [List.foldl_map]
    exact fold least _ (fun _ _ _ => rfl) (fun _ _ => rfl) fun _ _ _ _ => rfl
  case greatest =>
    rw [List.foldl_map]
    exact fold greatest _ (fun _ _ _ => rfl) (fun _ _ => rfl) fun _ _ _ _ => rfl
  case most =>
    have hfold := fold (fun t => (t.most, t.fileWithMost)) raiseMost (fun _ _ _ => rfl)
      (fun _ _ => rfl) fun _ _ _ _ => rfl
    have hmost := isMost_foldl_raiseMost (withRatio names reports)
    rw [withRatio, ← hfold] at hmost
    exact hmost
  case excesses =>
    refine (fold excesses (fun xs e => if 1 < e.ratio then xs ++ [⟨e.file, e.row, e.ratio⟩] else xs)
      (fun _ _ _ => rfl) (fun _ _ => rfl) fun _ _ _ _ => rfl).trans ?_
    have hfilter : (withRatio names reports).foldl (fun xs e =>
        if 1 < e.ratio then xs ++ [(⟨e.file, e.row, e.ratio⟩ : Excess)] else xs) [] =
        ((withRatio names reports).filter fun e => decide (1 < e.ratio)).foldl
          (fun xs e => xs ++ [⟨e.file, e.row, e.ratio⟩]) [] := by
      simp only [List.foldl_filter, decide_eq_true_eq]
    rw [← withRatio, hfilter, List.foldl_append_eq_append, List.nil_append]
    exact List.map_eq_flatMap.symm

/-- A run over passthrough reports. Its rows stand after the banners. It fails with the first flawed
row, if there is one: a counted row with a missing field or a field that is no integer. Without
flawed rows it succeeds, and its totals are given row by row. -/
theorem summary_of_rows (rules : Rules) (folder : Text) (reports : List Named) :
    (∀ r ∈ reports, HasRows r.contents (rows r.contents)) ∧
    (∀ r e, summarize rules .passthrough folder reports = .error (r, e) ↔
      FirstError (fun r' x => r' = x.1 ∧
        FirstError (RowFlaw rules.generatedNames) (rows r'.contents) x.2) reports (r, e)) ∧
    (Flawless rules.generatedNames reports → ∃ t : Tally,
      summarize rules .passthrough folder reports = .ok (.passthrough (t.finish folder)) ∧
      t.RowWise rules.generatedNames reports) := by
  refine ⟨fun r _ => hasRows_rows r.contents, fun r e => summarize_eq_error_iff, fun h => ?_⟩
  exact ⟨_, summarize_passthrough h folder, rowWise_ofEntries h⟩

/-- Three classes after the banner, one of them generated and one without a precise passthrough: the
columns of both others are found, and one of them has a ratio. -/
theorem summary_of_threeClasses :
    ∃ t : Tally, summarize ⟨[], [['G']], 0⟩ .passthrough []
        [⟨['r'], "=== Summary ===\nx+1\n\nG+?+?\nA+-1+4+5+6+7\nB+ 1 +2+3+4+5\n".toList⟩] =
          .ok (.passthrough (t.finish [])) ∧
      t.files = 1 ∧ t.classes = 3 ∧ t.counted = 2 ∧ t.imprecise = 1 ∧ t.outputFound.toInt = 6 ∧
      t.passthrough.toInt = 1 := by
  obtain ⟨-, -, hrun⟩ := summary_of_rows ⟨[], [['G']], 0⟩ []
    [⟨['r'], "=== Summary ===\nx+1\n\nG+?+?\nA+-1+4+5+6+7\nB+ 1 +2+3+4+5\n".toList⟩]
  obtain ⟨t, ht, hrows⟩ := hrun (by decide +kernel)
  refine ⟨t, ht, hrows.files, ?_, ?_, ?_, ?_, ?_⟩
  · rw [hrows.classes]
    decide +kernel
  · rw [hrows.counted]
    decide +kernel
  · rw [hrows.imprecise]
    decide +kernel
  · rw [hrows.outputFound]
    decide +kernel
  · rw [hrows.passthrough]
    decide +kernel

end ReportTally.Passthrough
