import ReportTally.Proofs.Trace.Sums

/-!
# What the lines of a trace say

The statistics of a trace are given by its lines alone, without the loop that reads them. For each
total there are the lines that start with its label, and every one of them has a payload
(`Feeds.Reads`, `Feeds.reads_of_ofText`). A count or a share is the sum of the payloads of its lines.
An assembly is uninteresting if some line counts no interesting methods (`interesting_of_ofText`),
and the time is the sum of the times of the lines before the first such line.

`statistics_of_trace` puts this together.
-/

namespace ReportTally.Trace

open Binary64 (total)

variable {s t : Text}

/-- The payloads of the lines of a total are these, in order, and every such line has one. -/
def Feeds.Reads {α : Type} (read : Text → Text → Except Flaw α) (f : Feeds) (lines : List Text)
    (xs : List α) : Prop :=
  (lines.filter fun line => f.label <+: line).map (read f.label) = xs.map .ok

/-- The line counts no interesting methods. -/
def CountsNone (line : Text) : Prop :=
  Count.interestingMethods.label <+: line ∧
    Payload.integer Count.interestingMethods.label line = .ok 0

instance : DecidablePred CountsNone := fun _ => inferInstanceAs (Decidable (_ ∧ _))

theorem Feeds.Reads.unique {α : Type} {read : Text → Text → Except Flaw α} {f : Feeds}
    {lines : List Text} {xs ys : List α} (hx : f.Reads read lines xs) (hy : f.Reads read lines ys) :
    xs = ys :=
  List.map_injective_iff.2 (fun _ _ => Except.ok.inj) (hx.symm.trans hy)

/-- Lines that can be read give their payloads. -/
theorem Feeds.reads_filterMap {α : Type} {read : Text → Text → Except Flaw α} {f : Feeds}
    {lines : List Text} (h : ∀ line ∈ lines, f.label <+: Text.trim line →
      ∃ x, read f.label (Text.trim line) = .ok x) :
    f.Reads read (lines.map Text.trim) (lines.filterMap (f.payload? read)) := by
  unfold Reads
  induction lines with
  | nil => rfl
  | cons line lines ih =>
    obtain ⟨hline, hlines⟩ := List.forall_mem_cons.1 h
    have hrest := ih hlines
    rw [List.map_cons, List.filter_cons, List.filterMap_cons, payload?]
    by_cases hp : f.label <+: Text.trim line
    · obtain ⟨x, hx⟩ := hline hp
      simp [hp, hx, Except.toOption, hrest]
    · simp [hp, hrest]

/-- A line ends the times if it counts no interesting methods, up to blanks at its ends. -/
theorem stops_iff {line : Text} : stops line = true ↔ CountsNone (Text.trim line) := by
  rw [stops, decide_eq_true_eq, Count.payload?, Option.ite_none_right_eq_some, CountsNone]
  refine and_congr_right fun _ => ?_
  cases Payload.integer Count.interestingMethods.label (Text.trim line) <;> simp [Except.toOption]

namespace Statistics

/-- No line of a trace that has been read has a flaw. -/
theorem not_lineFlaw_of_ofText {st : Statistics} (h : ofText markers s = .ok st) {line : Text}
    (hline : line ∈ Text.lines s) (e : Flaw) : ¬LineFlaw line e := by
  intro hflaw
  obtain ⟨e', he'⟩ := firstError_of_mem hline hflaw
  rw [← ofText_eq_error_iff, h] at he'
  cases he'

variable {st : Statistics}

theorem reads_count (h : ofText markers s = .ok st) (k : Count) :
    (Feeds.count k).Reads Payload.integer ((Text.lines s).map Text.trim)
      ((Text.lines s).filterMap k.payload?) :=
  Feeds.reads_filterMap fun _ hline hp => exists_eq_ok_of_ne_error fun e he =>
    not_lineFlaw_of_ofText h hline e ⟨⟨k.label, .count k⟩, mem_markers_iff.2 rfl, hp, he⟩

theorem reads_share (h : ofText markers s = .ok st) (r : Share) :
    (Feeds.share r).Reads Payload.number ((Text.lines s).map Text.trim)
      ((Text.lines s).filterMap r.payload?) :=
  Feeds.reads_filterMap fun _ hline hp => exists_eq_ok_of_ne_error fun e he =>
    not_lineFlaw_of_ofText h hline e ⟨⟨r.label, .share r⟩, mem_markers_iff.2 rfl, hp, he⟩

/-- The times that count are those of the lines before the first one that counts no interesting
methods. -/
theorem reads_times (h : ofText markers s = .ok st) :
    Feeds.time.Reads Payload.elapsed
      (((Text.lines s).map Text.trim).takeWhile fun line => !decide (CountsNone line))
      (times (Text.lines s)) := by
  have hstops : (fun line => !decide (CountsNone line)) ∘ Text.trim = fun line => !stops line := by
    funext line
    rw [Function.comp_apply, Bool.not_inj_iff, Bool.eq_iff_iff, decide_eq_true_eq, stops_iff]
  rw [List.takeWhile_map, hstops]
  refine Feeds.reads_filterMap fun line hline hp => exists_eq_ok_of_ne_error fun e he => ?_
  exact not_lineFlaw_of_ofText h ((List.takeWhile_sublist _).subset hline) e
    ⟨⟨Feeds.time.label, .time⟩, mem_markers_iff.2 rfl, hp, he⟩

theorem foldl_raiseTime_fst (lines : List Text) (p : Bool × Float) :
    (lines.foldl raiseTime p).1 = (p.1 && !lines.any stops) := by
  induction lines generalizing p with
  | nil => simp
  | cons line lines ih =>
    rw [List.foldl_cons, ih, raiseTime, List.any_cons, Bool.not_or, Bool.and_assoc]

/-- An assembly is uninteresting just if some line counts no interesting methods. -/
theorem interesting_of_ofText (h : ofText markers s = .ok st) :
    st.interesting = false ↔ ∃ line ∈ (Text.lines s).map Text.trim, CountsNone line := by
  have hlines := foldlM_observe (fun st => (st.interesting, st.counters.seconds)) raiseTime
    seconds_of_feedLine (Text.lines s) h
  have hfst := (congrArg Prod.fst hlines).trans (foldl_raiseTime_fst (Text.lines s) (true, 0))
  simp only [Bool.true_and] at hfst
  simp [hfst, stops_iff]

end Statistics

/-- The statistics of a trace are those of its lines after the banner, without the blanks at their
ends. A line starts with the label of at most one total. Each count is the sum of the payloads of
its own lines from left to right, held at the ends of the range, and each share is their sum in
floats. The assembly is uninteresting just if some line counts no interesting methods, and the time
is the sum of the times of all lines before the first such line. -/
theorem statistics_of_trace {st : Statistics} (h : Outcome.ofText t = .ok (.parsed st)) :
    ∃ a s lines, t = a ++ banner ++ s ∧ Text.occurrences banner t = 1 ∧
      lines = (Text.lines s).map Text.trim ∧
      (∀ line (f g : Feeds), f.label <+: line → g.label <+: line → f = g) ∧
      (∀ k : Count, ∃ ns, (Feeds.count k).Reads Payload.integer lines ns ∧
        st.counters.get k = Counter.total ns) ∧
      (∀ r : Share, ∃ xs, (Feeds.share r).Reads Payload.number lines xs ∧
        st.counters.getShare r = total xs) ∧
      (st.interesting = false ↔ ∃ line ∈ lines, CountsNone line) ∧
      ∃ xs, Feeds.time.Reads Payload.elapsed
          (lines.takeWhile fun line => !decide (CountsNone line)) xs ∧
        st.counters.seconds = total xs := by
  obtain ⟨s, hs, hst⟩ := Outcome.exists_of_parsed h
  obtain ⟨-, hone, a, hab⟩ := statistics?_eq_some_iff.1 hs
  refine ⟨a, s, _, hab, hone, rfl, fun line f g hf hg => ?_, fun k => ?_, fun r => ?_,
    Statistics.interesting_of_ofText hst, ?_⟩
  · have hmem : (⟨f.label, f⟩ : Marker) ∈ markers := mem_markers_iff.2 rfl
    exact (Feeds.label_prefix_iff hmem hf g).1 hg
  · exact ⟨_, Statistics.reads_count hst k, Statistics.get_of_ofText k hst⟩
  · exact ⟨_, Statistics.reads_share hst r, Statistics.getShare_of_ofText r hst⟩
  · exact ⟨_, Statistics.reads_times hst, Statistics.seconds_of_ofText hst⟩

/-- Statistics of an assembly that is found to be uninteresting after its first time. -/
def stoppedStatistics : Text :=
  ["", "  Methods: 9223372036854775807", "Methods: 2", "Total analysis time: 0:1:1.5",
    "Interesting methods: 0", "Interesting methods: 3", "Total analysis time: 0:0:9"].flatMap
      (fun line : String => line.toList ++ ['\n']) ++ success

theorem statistics_of_stopped : ∃ st,
    Outcome.ofText (banner ++ stoppedStatistics) = .ok (.parsed st) ∧
      st.counters.get .methods = 9223372036854775807 ∧
      st.counters.get .interestingMethods = 3 ∧ st.interesting = false ∧
      st.counters.seconds = 61.5 := by
  obtain ⟨st, h⟩ : ∃ st, Outcome.ofText (banner ++ stoppedStatistics) = .ok (.parsed st) := by
    have hparsed : (Outcome.ofText (banner ++ stoppedStatistics)).toOption.any
        Outcome.isParsed = true := by decide +kernel
    cases ho : Outcome.ofText (banner ++ stoppedStatistics) with
    | error e => simp [ho, Except.toOption] at hparsed
    | ok o =>
      cases o with
      | parsed st => exact ⟨st, rfl⟩
      | _ => simp [ho, Except.toOption, Outcome.isParsed] at hparsed
  obtain ⟨a, s, lines, hab, hone, rfl, -, hcount, -, hinteresting, times, htimes, hseconds⟩ :=
    statistics_of_trace h
  obtain ⟨-, rfl⟩ := Text.append_inj_of_occurrences_eq_one hone (a := []) rfl hab
  obtain ⟨methods, hmethods, hget⟩ := hcount .methods
  obtain ⟨interesting, hreads, hget'⟩ := hcount .interestingMethods
  obtain rfl : methods = [9223372036854775807, 2] := hmethods.unique (by
    unfold Feeds.Reads
    decide +kernel)
  obtain rfl : interesting = [0, 3] := hreads.unique (by
    unfold Feeds.Reads
    decide +kernel)
  obtain rfl : times = [61.5] := htimes.unique (by
    unfold Feeds.Reads
    decide +kernel)
  refine ⟨st, h, hget.trans (by decide), hget'.trans (by decide), hinteresting.2 ?_,
    hseconds.trans (by decide +kernel)⟩
  decide +kernel

end ReportTally.Trace
