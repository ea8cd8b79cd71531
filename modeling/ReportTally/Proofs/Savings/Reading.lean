import ReportTally.Savings
import ReportTally.Proofs.Distinct
import ReportTally.Proofs.Text.Cuts
import ReportTally.Proofs.Text.Search

/-!
# Reading savings traces

`NamesAssembly` and `NamesProcessor` say which names stand on a line. A line with the marker of an
assembly is no savings line (`IsSavings`), also if it starts like one.

`mentioned` and `named?` are the processors and the assembly that the lines of a trace name. The
lines are read one by one: an assembly replaces the one before it, and a processor is added if it is
new, so what has been read is the last assembly of the lines so far and their processors without
repetitions (`Trace.foldl_feedLine`). The trace follows from this (`Trace.ofText_eq`): it cannot be
read just if it `LacksAssembly`. `trace_of_text` says what it is in terms of the lines.
-/

namespace ReportTally.Savings

variable {line t a p : Text}

/-! ## What a line names -/

/-- The line names this assembly: it follows the first marker, up to an equals sign. -/
def NamesAssembly (line a : Text) : Prop :=
  ∃ first rest, line = first ++ assemblyMarker ++ rest ∧
    (∀ first' rest', line = first' ++ assemblyMarker ++ rest' → first.length ≤ first'.length) ∧
    a = Text.trim (Text.before '=' rest)

/-- The line names this processor: it follows the marker at the start, up to a colon. -/
def NamesProcessor (line p : Text) : Prop :=
  ∃ rest, Text.trim line = processorMarker ++ rest ∧
    p = Text.trim (Text.before ':' (Text.trim rest))

/-- The line starts like that of a processor, and has no marker of an assembly. -/
def IsSavings (line : Text) : Prop :=
  processorMarker <+: Text.trim line ∧ ¬assemblyMarker <:+: line

instance : DecidablePred IsSavings := fun _ => inferInstanceAs (Decidable (_ ∧ _))

theorem assembly?_eq_some_iff : assembly? line = some a ↔ NamesAssembly line a := by
  have hne : assemblyMarker ≠ [] := by decide
  have hsep : Text.isBlank '=' = false := rfl
  rw [assembly?, Option.map_eq_some_iff, NamesAssembly]
  simp only [Prod.exists, Text.cutAt?_eq_some_iff hne, Text.trim_before_trim hsep, and_assoc,
    eq_comm]

theorem assembly?_eq_none_iff : assembly? line = none ↔ ¬assemblyMarker <:+: line := by
  rw [assembly?, Option.map_eq_none_iff, Text.cutAt?_eq_none_iff (by decide)]

theorem processor?_eq_some_iff :
    processor? line = some p ↔ ¬assemblyMarker <:+: line ∧ NamesProcessor line p := by
  rw [processor?, ← Text.occurs_iff]
  split_ifs with h
  · simp [h]
  · simp only [Option.map_eq_some_iff, Text.dropLead?_eq_some_iff, NamesProcessor, h,
      eq_comm (a := p), Bool.false_eq_true, not_false_eq_true, true_and]

theorem processor?_eq_none_iff : processor? line = none ↔ ¬IsSavings line := by
  rw [processor?, IsSavings, ← Text.occurs_iff]
  split_ifs with h
  · simp [h]
  · simp [h, Text.dropLead?_eq_none_iff]

theorem processor?_of_assembly? (h : assembly? line = some a) : processor? line = none := by
  rw [processor?_eq_none_iff]
  rintro ⟨-, hno⟩
  rw [assembly?_eq_none_iff.2 hno] at h
  cases h

/-- A name is trimmed and on one line, and it ends before the separator. -/
structure IsName (sep : Char) (name : Text) : Prop where
  /-- No blanks are at its ends. -/
  trim : Text.trim name = name
  /-- It is on one line. -/
  oneLine : '\n' ∉ name
  /-- The separator comes after it. -/
  notMem : sep ∉ name

theorem IsName.head?_ne {sep : Char} {name : Text} (h : IsName sep name) :
    name.head? ≠ some '\t' := by
  rw [← h.trim]
  exact Text.head?_trim (by decide)

theorem isName_trim_before {sep : Char} {rest : Text} (h : '\n' ∉ rest) :
    IsName sep (Text.trim (Text.before sep rest)) where
  trim := Text.trim_trim _
  oneLine := fun hmem => h (Text.before_subset _ _ (Text.trim_subset _ hmem))
  notMem := fun hmem => Text.notMem_before _ _ (Text.trim_subset _ hmem)

theorem NamesAssembly.isName (h : NamesAssembly line a) (hline : '\n' ∉ line) : IsName '=' a := by
  obtain ⟨first, rest, rfl, -, rfl⟩ := h
  exact isName_trim_before fun hmem => hline (List.mem_append_right _ hmem)

theorem NamesProcessor.isName (h : NamesProcessor line p) (hline : '\n' ∉ line) :
    IsName ':' p := by
  obtain ⟨rest, htrim, rfl⟩ := h
  refine isName_trim_before fun hmem => hline (Text.trim_subset _ ?_)
  rw [htrim]
  exact List.mem_append_right _ (Text.trim_subset _ hmem)

/-! ## What a trace names -/

/-- The processors that the lines of a trace name, each as often as it is named. -/
def mentioned (t : Text) : List Text :=
  (Text.lines t).filterMap processor?

/-- The assembly that a trace names last. -/
def named? (t : Text) : Option Text :=
  ((Text.lines t).filterMap assembly?).getLast?

theorem isName_of_mem_mentioned (h : p ∈ mentioned t) : IsName ':' p := by
  obtain ⟨line, hline, hp⟩ := List.mem_filterMap.1 h
  exact (processor?_eq_some_iff.1 hp).2.isName (Text.notMem_of_mem_lines hline)

theorem isName_of_named? (h : named? t = some a) : IsName '=' a := by
  obtain ⟨line, hline, ha⟩ := List.mem_filterMap.1 (List.mem_of_getLast? h)
  exact (assembly?_eq_some_iff.1 ha).isName (Text.notMem_of_mem_lines hline)

/-- This is the assembly on the last line that has the marker. -/
def LastAssembly (lines : List Text) (a : Text) : Prop :=
  ∃ pre line post, lines = pre ++ line :: post ∧ NamesAssembly line a ∧
    ∀ l ∈ post, ¬assemblyMarker <:+: l

/-- This is the processor on the first line that starts like that of a processor. -/
def FirstProcessor (lines : List Text) (p : Text) : Prop :=
  ∃ pre line post, lines = pre ++ line :: post ∧ NamesProcessor line p ∧
    ∀ l ∈ pre, ¬processorMarker <+: Text.trim l

theorem named?_eq_some_iff : named? t = some a ↔ LastAssembly (Text.lines t) a := by
  rw [named?, List.getLast?_filterMap, List.findSome?_eq_some_iff, LastAssembly]
  simp only [assembly?_eq_some_iff, assembly?_eq_none_iff]
  constructor
  · rintro ⟨post, line, pre, hlines, ha, hpost⟩
    refine ⟨pre.reverse, line, post.reverse, ?_, ha, fun l hl => hpost l (List.mem_reverse.1 hl)⟩
    rw [List.reverse_eq_iff] at hlines
    simpa using hlines
  · rintro ⟨pre, line, post, hlines, ha, hpost⟩
    refine ⟨post.reverse, line, pre.reverse, ?_, ha, fun l hl => hpost l (List.mem_reverse.1 hl)⟩
    rw [hlines]
    simp

theorem named?_eq_none_iff :
    named? t = none ↔ ∀ line ∈ Text.lines t, ¬assemblyMarker <:+: line := by
  simp [named?, assembly?_eq_none_iff]

theorem mentioned_eq_nil_iff : mentioned t = [] ↔ ∀ line ∈ Text.lines t, ¬IsSavings line := by
  simp [mentioned, processor?_eq_none_iff]

/-- Where no line names an assembly, every line that starts like that of a processor names one. -/
theorem head?_mentioned_eq_some_iff (hno : ∀ line ∈ Text.lines t, ¬assemblyMarker <:+: line) :
    (mentioned t).head? = some p ↔ FirstProcessor (Text.lines t) p := by
  rw [mentioned, List.head?_filterMap, List.findSome?_eq_some_iff, FirstProcessor]
  simp only [processor?_eq_some_iff, processor?_eq_none_iff]
  constructor
  · rintro ⟨pre, line, post, hlines, ⟨-, hp⟩, hpre⟩
    refine ⟨pre, line, post, hlines, hp, fun l hl hlead => hpre l hl ⟨hlead, hno l ?_⟩⟩
    rw [hlines]
    exact List.mem_append_left _ hl
  · rintro ⟨pre, line, post, hlines, hp, hpre⟩
    refine ⟨pre, line, post, hlines, ⟨hno line ?_, hp⟩, fun l hl hs => hpre l hl hs.1⟩
    rw [hlines]
    simp

theorem forall₂_mentioned (t : Text) :
    List.Forall₂ NamesProcessor ((Text.lines t).filter IsSavings) (mentioned t) := by
  rw [mentioned]
  induction Text.lines t with
  | nil => exact .nil
  | cons line lines ih =>
    rw [List.filterMap_cons, List.filter_cons]
    cases hp : processor? line with
    | none =>
      rw [if_neg (by simpa using processor?_eq_none_iff.1 hp)]
      exact ih
    | some p =>
      have hs : IsSavings line := by
        by_contra hno
        rw [processor?_eq_none_iff.2 hno] at hp
        cases hp
      rw [if_pos (by simpa using hs)]
      exact .cons (processor?_eq_some_iff.1 hp).2 ih

/-! ## Line by line -/

/-- What has been read after some lines, one line later. -/
theorem Trace.feedLine_getLast?_eraseDups (as ps : List Text) (line : Text) :
    feedLine ⟨as.getLast?, ps.eraseDups⟩ line =
      ⟨(as ++ (assembly? line).toList).getLast?,
        (ps ++ (processor? line).toList).eraseDups⟩ := by
  cases ha : assembly? line with
  | some a => simp [feedLine, ha, processor?_of_assembly? ha]
  | none =>
    cases hp : processor? line with
    | none => simp [feedLine, ha, hp]
    | some p =>
      by_cases hmem : p ∈ ps
      · simp [feedLine, ha, hp, hmem, eraseDups_concat_of_mem hmem]
      · simp [feedLine, ha, hp, hmem, eraseDups_concat_of_notMem hmem]

theorem Trace.foldl_feedLine (as ps lines : List Text) :
    lines.foldl feedLine ⟨as.getLast?, ps.eraseDups⟩ =
      ⟨(as ++ lines.filterMap assembly?).getLast?,
        (ps ++ lines.filterMap processor?).eraseDups⟩ := by
  induction lines generalizing as ps with
  | nil => simp
  | cons line lines ih =>
    rw [List.foldl_cons, feedLine_getLast?_eraseDups, ih]
    simp only [List.filterMap_eq_flatMap_toList, List.flatMap_cons, List.append_assoc]

/-- A trace has the assembly that is named last and every processor once. It cannot be read if it
names processors and no assembly. -/
theorem Trace.ofText_eq (t : Text) : ofText t =
    match named? t, mentioned t with
    | none, p :: _ => .error (.noAssembly p)
    | _, _ => .ok ⟨named? t, (mentioned t).eraseDups⟩ := by
  have hrun := foldl_feedLine [] [] (Text.lines t)
  rw [List.nil_append, List.nil_append, ← named?, ← mentioned] at hrun
  have hstart : (Text.lines t).foldl feedLine ⟨none, []⟩ = ⟨named? t, (mentioned t).eraseDups⟩ :=
    hrun
  rw [ofText, hstart]
  cases named? t with
  | some a => rfl
  | none =>
    cases mentioned t with
    | nil => rfl
    | cons p ps => rw [List.eraseDups_cons]

/-- Some line starts like that of a processor, and no line has the marker of an assembly. -/
def LacksAssembly (lines : List Text) : Prop :=
  (∀ line ∈ lines, ¬assemblyMarker <:+: line) ∧ ∃ line ∈ lines, processorMarker <+: Text.trim line

theorem lacksAssembly_iff : LacksAssembly (Text.lines t) ↔ named? t = none ∧ mentioned t ≠ [] := by
  rw [LacksAssembly, named?_eq_none_iff, Ne, mentioned_eq_nil_iff]
  refine and_congr_right fun hno => ?_
  simp only [IsSavings, not_forall, not_not]
  constructor
  · rintro ⟨line, hline, hlead⟩
    exact ⟨line, hline, hlead, hno line hline⟩
  · rintro ⟨line, hline, hlead, -⟩
    exact ⟨line, hline, hlead⟩

theorem Trace.ofText_of_lacksAssembly (h : LacksAssembly (Text.lines t)) :
    ∃ p, ofText t = .error (.noAssembly p) ∧ (mentioned t).head? = some p := by
  obtain ⟨hn, hne⟩ := lacksAssembly_iff.1 h
  obtain ⟨p, ps, hp⟩ := List.exists_cons_of_ne_nil hne
  rw [ofText_eq, hn, hp]
  exact ⟨p, rfl, rfl⟩

theorem Trace.ofText_of_not_lacksAssembly (h : ¬LacksAssembly (Text.lines t)) :
    ofText t = .ok ⟨named? t, (mentioned t).eraseDups⟩ := by
  rw [lacksAssembly_iff, not_and_not_right] at h
  rw [ofText_eq]
  cases hn : named? t with
  | some a => rfl
  | none => rw [h hn]

/-- A trace whose lines name processors and no assembly has a flaw, which says the first of these
processors. Every other trace has the assembly on the last line with its marker, if there is one,
and the processors of its savings lines: each once, in the order in which they appear first, and
wherever the assembly stands. All these names are trimmed, stand on one line and end before the
separator. -/
theorem trace_of_text (t : Text) :
    (LacksAssembly (Text.lines t) → ∃ p, Trace.ofText t = .error (.noAssembly p) ∧
      FirstProcessor (Text.lines t) p ∧ IsName ':' p) ∧
    (¬LacksAssembly (Text.lines t) → ∃ tr names, Trace.ofText t = .ok tr ∧
      (∀ a, tr.assembly = some a ↔ LastAssembly (Text.lines t) a) ∧
      (tr.assembly = none ↔ ∀ line ∈ Text.lines t, ¬assemblyMarker <:+: line) ∧
      List.Forall₂ NamesProcessor ((Text.lines t).filter IsSavings) names ∧
      tr.processors.Nodup ∧ (∀ p, p ∈ tr.processors ↔ p ∈ names) ∧
      tr.processors.Pairwise (fun p q => names.idxOf p < names.idxOf q) ∧
      (∀ a, tr.assembly = some a → IsName '=' a) ∧ ∀ p ∈ tr.processors, IsName ':' p) := by
  constructor
  · intro hlacks
    obtain ⟨p, hp, hfirst⟩ := Trace.ofText_of_lacksAssembly hlacks
    exact ⟨p, hp, (head?_mentioned_eq_some_iff hlacks.1).1 hfirst,
      isName_of_mem_mentioned (List.mem_of_mem_head? hfirst)⟩
  · intro hlacks
    exact ⟨_, mentioned t, Trace.ofText_of_not_lacksAssembly hlacks, fun _ => named?_eq_some_iff,
      named?_eq_none_iff, forall₂_mentioned t, nodup_eraseDups _, fun _ => List.mem_eraseDups,
      pairwise_eraseDups _, fun _ => isName_of_named?,
      fun _ hp => isName_of_mem_mentioned (List.mem_eraseDups.1 hp)⟩

/-- Of two assemblies the last one counts, and its line names no processor. -/
example : Trace.ofText
    "SAVINGS  P : 1\nAnalyzing assembly: A\nSAVINGS P\nSAVINGS Analyzing assembly: B = :".toList =
      .ok ⟨some ['B'], [['P']]⟩ := by
  decide +kernel

end ReportTally.Savings
