import ReportTally.Proofs.Number.Saturation
import ReportTally.Proofs.Report.Feeding
import ReportTally.Proofs.Trace.Accounting
import ReportTally.Proofs.Trace.Reading
import ReportTally.Report.Summary

/-!
# Totals of traces

`Count.payload?` says what a line gives to a count: its payload, if the line starts with the label
of that count. One trace adds these payloads up from left to right (`get_of_ofText`), and a run
adds up the totals of its traces (`get_summary`).

Both additions stop at the ends of the range. Where no payload is negative this makes no
difference: a count of the summary is the exact sum of all its payloads, or the greatest counter
if the sum is greater (`counts_of_traces`).

With payloads of both signs the order of the traces can matter. The numbers of traces never depend
on it, and a count is free of it exactly if its totals are `Counter.Unordered` (`order_of_traces`).
-/

namespace ReportTally.Trace

variable {s t : Text}

/-! ## One line -/

/-- What a line gives to a count. -/
def Count.payload? (k : Count) (line : Text) : Option Counter :=
  if k.label <+: Text.trim line then (Payload.integer k.label (Text.trim line)).toOption else none

/-- The line of a marker gives something to the count of that marker only. -/
theorem Count.payload?_of_starts {m : Marker} {line : Text} (hm : m ∈ markers)
    (hp : m.label <+: Text.trim line) (k : Count) :
    k.payload? line =
      if m.feeds = .count k then (Payload.integer m.label (Text.trim line)).toOption else none := by
  have hk : k.label <+: Text.trim line ↔ m.feeds = .count k :=
    Feeds.label_prefix_iff hm hp (.count k)
  have hlabel : m.label = m.feeds.label := mem_markers_iff.1 hm
  rw [payload?]
  by_cases hf : m.feeds = .count k
  · rw [if_pos (hk.2 hf), if_pos hf, hlabel, hf]
    rfl
  · rw [if_neg fun h => hf (hk.1 h), if_neg hf]

theorem Count.payload?_of_unknown {line : Text} (h : ∀ m ∈ markers, ¬m.label <+: Text.trim line)
    (k : Count) : k.payload? line = none := by
  have hk : (⟨k.label, .count k⟩ : Marker) ∈ markers := mem_markers_iff.2 rfl
  rw [payload?, if_neg (h _ hk)]

namespace Statistics

/-- A line changes a count by its payload for that count. -/
theorem get_of_feedLine (k : Count) (st : Statistics) (line : Text) (st' : Statistics)
    (h : feedLine markers st line = .ok st') : st'.counters.get k =
      ((k.payload? line).map (Counter.add (st.counters.get k))).getD (st.counters.get k) := by
  by_cases hm : ∃ m ∈ markers, m.label <+: Text.trim line
  · obtain ⟨m, hm, hp⟩ := hm
    rw [feedLine_of_starts prefixFree_markers hm hp] at h
    rw [Count.payload?_of_starts hm hp]
    obtain ⟨j, n, hf, hn, rfl⟩ | ⟨r, x, hf, -, rfl⟩ | ⟨x, hf, -, rfl⟩ := feed_cases h
    · rw [Counters.get_bump, hf, hn]
      by_cases hjk : k = j
      · subst hjk
        rw [if_pos rfl, if_pos rfl]
        rfl
      · rw [if_neg hjk, if_neg fun hc => hjk (Feeds.count.inj hc).symm]
        rfl
    · have hne : m.feeds ≠ .count k := by simp [hf]
      rw [if_neg hne]
      rfl
    · have hne : m.feeds ≠ .count k := by simp [hf]
      rw [if_neg hne]
      split <;> rfl
  · have hunknown : ∀ m ∈ markers, ¬m.label <+: Text.trim line := fun m hmem hp => hm ⟨m, hmem, hp⟩
    rw [feedLine_of_unknown hunknown] at h
    cases h
    rw [Count.payload?_of_unknown hunknown]
    rfl

/-! ## One trace -/

/-- A count of a trace is the sum of its payloads, from left to right. -/
theorem get_of_ofText (k : Count) {st : Statistics} (h : ofText markers s = .ok st) :
    st.counters.get k = Counter.total ((Text.lines s).filterMap k.payload?) := by
  have hlines := foldlM_observe (fun st => st.counters.get k)
    (fun a line => ((k.payload? line).map (Counter.add a)).getD a) (get_of_feedLine k)
    (Text.lines s) h
  rw [hlines, Counter.total, List.foldl_filterMap, start, Counters.get_zero]
  congr 1
  funext a line
  cases k.payload? line <;> rfl

end Statistics

/-- The payloads of a count in the statistics of a trace. -/
def Count.payloads? (k : Count) (t : Text) : Option (List Counter) :=
  (statistics? t).map fun s => (Text.lines s).filterMap k.payload?

/-- A trace without flaws has totals if it has statistics, and each of them is what the lines of the
statistics say. -/
theorem map_counters? {γ : Type} {part : Counters → γ} {value : Text → γ}
    (hpart : ∀ s st, Statistics.ofText markers s = .ok st → part st.counters = value s)
    {o : Outcome} (h : Outcome.ofText t = .ok o) :
    o.counters?.map part = (statistics? t).map value := by
  cases hs : statistics? t with
  | some s =>
    rw [Outcome.ofText_of_statistics? hs] at h
    cases hst : Statistics.ofText markers s with
    | error e =>
      rw [hst] at h
      cases h
    | ok st =>
      rw [hst] at h
      cases h
      simp [Outcome.counters?, hpart s st hst]
  | none =>
    cases o with
    | parsed st =>
      obtain ⟨s, hs', -⟩ := Outcome.exists_of_parsed h
      rw [hs] at hs'
      cases hs'
    | unfinished native => rfl
    | noStatistics segments => rfl

theorem get_of_counters? (k : Count) {o : Outcome} (h : Outcome.ofText t = .ok o) :
    o.counters?.map (·.get k) = (k.payloads? t).map Counter.total := by
  rw [map_counters? (fun s st hst => Statistics.get_of_ofText k hst) h, Count.payloads?,
    Option.map_map]
  rfl

/-! ## Runs -/

/-- No trace has a flaw. -/
def Readable (reports : List Named) : Prop :=
  ∀ r ∈ reports, ∃ o, Outcome.ofText r.contents = .ok o

theorem readable_iff {reports : List Named} :
    Readable reports ↔ ∀ r ∈ reports, (Outcome.ofText r.contents).isOk = true :=
  forall₂_congr fun _ _ => exists_eq_ok_iff

instance : DecidablePred Readable := fun _ => decidable_of_iff _ readable_iff.symm

/-- A finished trace with these statistics. -/
def finishedTrace (lines : String) : Named :=
  ⟨[], banner ++ '\n' :: (lines.toList ++ '\n' :: success)⟩

/-- What comes of the traces without flaws. -/
def outcomes (reports : List Named) : List Outcome :=
  reports.filterMap fun r => (Outcome.ofText r.contents).toOption

/-- A run over traces without flaws feeds all their outcomes. -/
theorem feedAll_traces (rules : Rules) {reports : List Named} (h : Readable reports) (t : Tally) :
    feedAll rules (.traces t) reports = .ok (.traces ((outcomes reports).foldl Tally.add t)) := by
  have hfeed : ∀ (t : Tally) (r : Named),
      (ReportTally.Tally.traces t).feed rules r.name r.contents =
        (Outcome.ofText r.contents).map fun o => .traces (t.add o) := by
    intro t r
    rw [ReportTally.Tally.feed]
    cases Outcome.ofText r.contents <;> rfl
  exact feedAll_of_reads hfeed h t

theorem summarize_traces (rules : Rules) (folder : Text) {reports : List Named}
    (h : Readable reports) : summarize rules .traces folder reports =
      .ok (.traces ((Tally.ofOutcomes (outcomes reports)).finish folder)) :=
  summarize_of_feedAll (feedAll_traces rules h {}) rfl

theorem get_foldl_add (k : Count) (cs : List Counters) (c : Counters) :
    (cs.foldl Counters.add c).get k = (cs.map (·.get k)).foldl Counter.add (c.get k) := by
  induction cs generalizing c with
  | nil => rfl
  | cons d cs ih => rw [List.foldl_cons, ih, Counters.get_add, List.map_cons, List.foldl_cons]

/-- The count of a trace, if it has statistics. -/
def traceTotal? (k : Count) (r : Named) : Option Counter :=
  (Outcome.ofText r.contents).toOption.bind fun o => o.counters?.map (·.get k)

/-- The counts of the traces that have statistics, in order. -/
def traceTotals (k : Count) (reports : List Named) : List Counter :=
  reports.filterMap (traceTotal? k)

/-- A count of a run is the sum of the counts of its traces, from left to right. -/
theorem get_summary (k : Count) (reports : List Named) (folder : Text) :
    ((Tally.ofOutcomes (outcomes reports)).finish folder).counters.get k =
      Counter.total (traceTotals k reports) := by
  show (Tally.ofOutcomes (outcomes reports)).counters.get k = _
  rw [Tally.ofOutcomes_counters, get_foldl_add, Counters.get_zero, List.map_filterMap, outcomes,
    List.filterMap_filterMap]
  rfl

/-! ## Payloads of one sign -/

/-- The payloads of a count in all statistics of traces. -/
def Count.payloads (k : Count) (reports : List Named) : List Counter :=
  (reports.filterMap fun r => k.payloads? r.contents).flatten

theorem traceTotals_eq (k : Count) {reports : List Named} (h : Readable reports) :
    traceTotals k reports =
      (reports.filterMap fun r => k.payloads? r.contents).map Counter.total := by
  rw [traceTotals, List.map_filterMap]
  refine List.filterMap_congr fun r hr => ?_
  obtain ⟨o, ho⟩ := h r hr
  rw [traceTotal?, ho, ← get_of_counters? k ho]
  rfl

/-- Without negative payloads, stopping at the end of the range in a trace or between traces makes
no difference. -/
theorem toInt_get_summary (k : Count) {reports : List Named} (h : Readable reports)
    (hn : ∀ n ∈ k.payloads reports, 0 ≤ n.toInt) (folder : Text) :
    (((Tally.ofOutcomes (outcomes reports)).finish folder).counters.get k).toInt =
      min Counter.greatest (Counter.exact (k.payloads reports)) := by
  rw [get_summary, traceTotals_eq k h, Counter.toInt_total_map_total]
  · rfl
  · exact fun ns hns n hmem => hn n (List.mem_flatten.2 ⟨ns, hns, hmem⟩)

/-- Without negative payloads, every count of a summary is the exact sum of the payloads of its own
lines in all statistics, or the greatest counter if the sum is greater. So it depends neither on
the order of these lines nor on how they are spread over the traces. -/
theorem counts_of_traces (rules : Rules) (folder : Text) {reports : List Named}
    (h : Readable reports) (hn : ∀ k : Count, ∀ n ∈ k.payloads reports, 0 ≤ n.toInt) :
    ∃ s, summarize rules .traces folder reports = .ok (.traces s) ∧
      (∀ k, (s.counters.get k).toInt = min Counter.greatest (Counter.exact (k.payloads reports))) ∧
      ∀ reports', Readable reports' →
        (∀ k : Count, (k.payloads reports').Perm (k.payloads reports)) →
        ∃ s', summarize rules .traces folder reports' = .ok (.traces s') ∧
          ∀ k, s'.counters.get k = s.counters.get k := by
  refine ⟨_, summarize_traces rules folder h, fun k => toInt_get_summary k h (hn k) folder,
    fun reports' h' hp => ⟨_, summarize_traces rules folder h', fun k => ?_⟩⟩
  have hn' : ∀ n ∈ k.payloads reports', 0 ≤ n.toInt := fun n hmem =>
    hn k n ((hp k).mem_iff.1 hmem)
  rw [← Int64.toInt_inj, toInt_get_summary k h' hn', toInt_get_summary k h (hn k),
    Counter.exact_perm (hp k)]

/-- All counts, in the order of their markers. -/
def Count.all : List Count :=
  markers.filterMap fun m => match m.feeds with
    | .count k => some k
    | _ => none

theorem Count.mem_all (k : Count) : k ∈ all := by
  cases k <;> decide

/-- Two traces that have together more methods than a counter can hold. -/
def manyMethods : List Named :=
  [finishedTrace "Methods: 9223372036854775807\nMethods failed: 2", finishedTrace "Methods: 5"]

theorem counts_of_manyMethods : Readable manyMethods ∧
    (∀ k : Count, ∀ n ∈ k.payloads manyMethods, 0 ≤ n.toInt) ∧
    ∃ s, summarize ⟨[], [], 0⟩ .traces [] manyMethods = .ok (.traces s) ∧
      (s.counters.get .methods).toInt = Counter.greatest ∧
      (s.counters.get .failedMethods).toInt = 2 := by
  have hr : Readable manyMethods := by decide +kernel
  have hn : ∀ k : Count, ∀ n ∈ k.payloads manyMethods, 0 ≤ n.toInt := by
    have all : ∀ k ∈ Count.all, (k.payloads manyMethods).all (0 ≤ ·.toInt) = true := by
      decide +kernel
    intro k n hn
    simpa using List.all_eq_true.1 (all k k.mem_all) n hn
  obtain ⟨s, hs, hsum, -⟩ := counts_of_traces ⟨[], [], 0⟩ [] hr hn
  refine ⟨hr, hn, s, hs, ?_, ?_⟩
  · rw [hsum]
    decide +kernel
  · rw [hsum]
    decide +kernel

/-! ## The order of traces -/

theorem Readable.perm {reports reports' : List Named} (h : Readable reports)
    (hp : reports'.Perm reports) : Readable reports' :=
  fun r hr => h r (hp.mem_iff.1 hr)

theorem outcomes_perm {reports reports' : List Named} (hp : reports'.Perm reports) :
    (outcomes reports').Perm (outcomes reports) :=
  hp.filterMap _

/-- Choosing traces by a property of their counts chooses these counts. -/
theorem traceTotals_filter (k : Count) {p : Named → Bool} {q : Counter → Bool}
    (h : ∀ r x, traceTotal? k r = some x → p r = q x) (reports : List Named) :
    traceTotals k (reports.filter p) = (traceTotals k reports).filter q := by
  rw [traceTotals, traceTotals, List.filterMap_filter, List.filter_filterMap]
  refine List.filterMap_congr fun r _ => ?_
  cases hr : traceTotal? k r with
  | none => simp
  | some x => simp [h r x hr, Option.filter]

/-- Traces can be parted into those that raise a count and those that do not. -/
theorem exists_perm_traceTotals (k : Count) (reports : List Named) :
    ∃ up down : List Named, (up ++ down).Perm reports ∧
      traceTotals k up = Counter.rising (traceTotals k reports) ∧
      traceTotals k down = Counter.falling (traceTotals k reports) := by
  refine ⟨_, _, List.filter_append_perm (fun r => (traceTotal? k r).any (0 < ·.toInt)) reports,
    traceTotals_filter k ?_ reports, traceTotals_filter k ?_ reports⟩
  · intro r x hr
    rw [hr]
    rfl
  · intro r x hr
    rw [hr]
    rfl

/-- The numbers of traces of each kind do not depend on the order of the traces. A count does not
depend on it exactly if the counts of the traces have one sign, or if neither the positive ones
nor the negative ones alone add up to more than a counter can hold. -/
theorem order_of_traces (rules : Rules) (folder : Text) {reports : List Named}
    (h : Readable reports) : ∃ s, summarize rules .traces folder reports = .ok (.traces s) ∧
      (∀ reports', reports'.Perm reports →
        ∃ s', summarize rules .traces folder reports' = .ok (.traces s') ∧ s'.files = s.files ∧
          s'.failed = s.failed ∧ s'.native = s.native ∧ s'.notInteresting = s.notInteresting) ∧
      ∀ k, (∀ reports' s', reports'.Perm reports →
          summarize rules .traces folder reports' = .ok (.traces s') →
          s'.counters.get k = s.counters.get k) ↔
        Counter.Unordered (traceTotals k reports) := by
  refine ⟨_, summarize_traces rules folder h, fun reports' hp => ?_, fun k => ?_⟩
  · exact ⟨_, summarize_traces rules folder (h.perm hp), Tally.ofOutcomes_perm (outcomes_perm hp)⟩
  · rw [get_summary]
    constructor
    · -- two orders of the traces: those that raise the count first, and those that do so last
      intro hall
      obtain ⟨up, down, hp, hup, hdown⟩ := exists_perm_traceTotals k reports
      have hp' : (down ++ up).Perm reports := List.perm_append_comm.trans hp
      have h₁ := hall _ _ hp (summarize_traces rules folder (h.perm hp))
      have h₂ := hall _ _ hp' (summarize_traces rules folder (h.perm hp'))
      rw [get_summary, traceTotals, List.filterMap_append] at h₁ h₂
      apply Counter.unordered_of_total_eq
      rw [← hup, ← hdown]
      exact h₁.trans h₂.symm
    · intro hu reports' s' hp hs'
      rw [summarize_traces rules folder (h.perm hp)] at hs'
      obtain rfl := Summary.traces.inj (Except.ok.inj hs')
      rw [get_summary]
      exact Counter.total_eq_of_perm hu (hp.filterMap _)

/-- The greatest count, then one more and one less. -/
def upThenDown : List Named :=
  [finishedTrace "Methods: 9223372036854775807", finishedTrace "Methods: 1",
    finishedTrace "Methods: -1"]

/-- The same traces, one less before one more. -/
def downThenUp : List Named :=
  [finishedTrace "Methods: 9223372036854775807", finishedTrace "Methods: -1",
    finishedTrace "Methods: 1"]

theorem readable_upThenDown : Readable upThenDown := by
  decide +kernel

theorem traceTotals_upThenDown :
    traceTotals .methods upThenDown = [9223372036854775807, 1, -1] := by
  rw [traceTotals_eq _ readable_upThenDown]
  decide +kernel

/-- The order of these traces changes their number of methods. -/
theorem methods_of_downThenUp : downThenUp.Perm upThenDown ∧
    ∃ s s', summarize ⟨[], [], 0⟩ .traces [] upThenDown = .ok (.traces s) ∧
      summarize ⟨[], [], 0⟩ .traces [] downThenUp = .ok (.traces s') ∧
      (s.counters.get .methods).toInt = 9223372036854775806 ∧
      (s'.counters.get .methods).toInt = 9223372036854775807 := by
  have hp : downThenUp.Perm upThenDown := (List.Perm.swap _ _ []).cons _
  have hr := readable_upThenDown
  refine ⟨hp, _, _, summarize_traces _ _ hr, summarize_traces _ _ (hr.perm hp), ?_, ?_⟩
  · rw [get_summary, traceTotals_upThenDown]
    decide
  · rw [get_summary, traceTotals_eq _ (hr.perm hp)]
    decide +kernel

theorem order_of_upThenDown : Readable upThenDown ∧
    ∃ s, summarize ⟨[], [], 0⟩ .traces [] upThenDown = .ok (.traces s) ∧
      (¬∀ reports' s', reports'.Perm upThenDown →
        summarize ⟨[], [], 0⟩ .traces [] reports' = .ok (.traces s') →
        s'.counters.get .methods = s.counters.get .methods) ∧
      ∀ reports' s', reports'.Perm upThenDown →
        summarize ⟨[], [], 0⟩ .traces [] reports' = .ok (.traces s') →
        s'.counters.get .failedMethods = s.counters.get .failedMethods := by
  have hr := readable_upThenDown
  obtain ⟨s, hs, -, hk⟩ := order_of_traces ⟨[], [], 0⟩ [] hr
  refine ⟨hr, s, hs, fun h => absurd ((hk .methods).1 h) ?_, (hk .failedMethods).2 ?_⟩
  · rw [traceTotals_upThenDown]
    decide
  · rw [traceTotals_eq _ hr]
    decide +kernel

end ReportTally.Trace
