import ReportTally.Proofs.Payload.Elapsed
import ReportTally.Proofs.Report.Floats
import ReportTally.Proofs.Trace.Sums

/-!
# Floats of a trace report

Every payload of a share and every time that is read is finite (`isFinite_of_payload?`,
`isFinite_of_time?`). Their sums need not be: a share of a run is finite just if no addition on the
way is too large (`isFinite_share_iff`), and so is the time (`isFinite_seconds_iff`). An average of
a share or of the time is finite just if its sum is or its denominator is zero, and an average of
counts always is (`Averages.isFinite_percentage_iff`, `Averages.isFinite_columns`).

The reports show just this: the text says `inf` or `NaN` if a float in it is not finite
(`Summary.showsNoNumber_text`), and the document says nothing for such a float
(`Summary.hasNull_json`). `finite_of_traces` puts this together.
-/

namespace ReportTally.Trace

open Binary64 (InRange total)
open Json (Tree)

/-! ## Payloads -/

theorem isFinite_of_number {marker line : Text} {x : Float}
    (h : Payload.number marker line = .ok x) : x.isFinite = true := by
  unfold Payload.number at h
  cases hvalue : Payload.payload marker line with
  | error e =>
    rw [hvalue] at h
    cases h
  | ok value =>
    rw [hvalue] at h
    cases hx : Decimal.finite? value with
    | none => simp [hx, bind, Except.bind] at h
    | some y =>
      obtain rfl : y = x := by simpa [hx, bind, Except.bind] using h
      exact (Option.filter_eq_some_iff.1 hx).2

theorem isFinite_of_payload? {r : Share} {line : Text} {x : Float}
    (h : r.payload? line = some x) : x.isFinite = true := by
  rw [Share.payload?, Feeds.payload?] at h
  split_ifs at h with hp
  cases hx : Payload.number (Feeds.share r).label (Text.trim line) with
  | error e =>
    rw [hx] at h
    cases h
  | ok y =>
    rw [hx] at h
    cases h
    exact isFinite_of_number hx

theorem isFinite_of_time? {line : Text} {x : Float} (h : time? line = some x) :
    x.isFinite = true := by
  rw [time?, Feeds.payload?] at h
  split_ifs at h with hp
  unfold Payload.elapsed at h
  cases hrest : Text.after? ':' (Text.trim line) with
  | none => simp [hrest, Except.toOption] at h
  | some rest =>
    cases hx : Payload.elapsed? (Text.trim rest) with
    | none => simp [hrest, hx, Except.toOption] at h
    | some y =>
      obtain rfl : y = x := by simpa [hrest, hx, Except.toOption] using h
      exact Payload.isFinite_of_elapsed? hx

/-! ## Sums -/

/-- The payloads of a share, trace by trace. -/
def Share.payloads (r : Share) (reports : List Named) : List (List Float) :=
  readings (fun s => (Text.lines s).filterMap r.payload?) reports

/-- The times that count, trace by trace. -/
def countedTimes (reports : List Named) : List (List Float) :=
  readings (fun s => times (Text.lines s)) reports

/-- No addition of these sums is too large, neither within a trace nor between traces. -/
def AllInRange (sums : List (List Float)) : Prop :=
  (∀ xs ∈ sums, InRange xs) ∧ InRange (sums.map total)

theorem isFinite_readings {value : Text → List Float}
    (h : ∀ s, ∀ x ∈ value s, x.isFinite = true) (reports : List Named) :
    ∀ xs ∈ readings value reports, ∀ x ∈ xs, x.isFinite = true := by
  intro xs hxs
  obtain ⟨r, -, hr⟩ := List.mem_filterMap.1 hxs
  obtain ⟨s, -, rfl⟩ := Option.map_eq_some_iff.1 hr
  exact h s

variable {reports : List Named}

theorem isFinite_payloads (r : Share) : ∀ xs ∈ r.payloads reports, ∀ x ∈ xs, x.isFinite = true := by
  refine isFinite_readings (fun s x hx => ?_) reports
  obtain ⟨line, -, hline⟩ := List.mem_filterMap.1 hx
  exact isFinite_of_payload? hline

theorem isFinite_countedTimes : ∀ xs ∈ countedTimes reports, ∀ x ∈ xs, x.isFinite = true := by
  refine isFinite_readings (fun s x hx => ?_) reports
  obtain ⟨line, -, hline⟩ := List.mem_filterMap.1 hx
  exact isFinite_of_time? hline

/-- A share of a run is the sum of its traces, each the sum of its payloads. -/
theorem share_of_run (h : Readable reports) (folder : Text) (r : Share) :
    ((Tally.ofOutcomes (outcomes reports)).finish folder).counters.getShare r =
      total ((r.payloads reports).map total) := by
  have hzero : Counters.zero.getShare r = 0 := by
    cases r <;> rfl
  have hadd (c d : Counters) : (c.add d).getShare r = c.getShare r + d.getShare r := by
    simp [Counters.getShare, Counters.add]
  exact sum_of_run (·.getShare r) (fun s => (Text.lines s).filterMap r.payload?) hzero hadd
    (fun _ _ => Statistics.getShare_of_ofText r) h folder

/-- The time of a run is the sum of its traces, each the sum of its times that count. -/
theorem seconds_of_run (h : Readable reports) (folder : Text) :
    ((Tally.ofOutcomes (outcomes reports)).finish folder).counters.seconds =
      total ((countedTimes reports).map total) :=
  sum_of_run Counters.seconds (fun s => times (Text.lines s)) rfl (fun _ _ => rfl)
    (fun _ _ => Statistics.seconds_of_ofText) h folder

/-- A share of a run is finite just if no addition on the way is too large. -/
theorem isFinite_share_iff (h : Readable reports) (folder : Text) (r : Share) :
    (((Tally.ofOutcomes (outcomes reports)).finish folder).counters.getShare r).isFinite = true ↔
      AllInRange (r.payloads reports) := by
  rw [share_of_run h folder r]
  exact Binary64.isFinite_total_map_total_iff (isFinite_payloads r)

/-- The time of a run is finite just if no addition on the way is too large. -/
theorem isFinite_seconds_iff (h : Readable reports) (folder : Text) :
    ((Tally.ofOutcomes (outcomes reports)).finish folder).counters.seconds.isFinite = true ↔
      AllInRange (countedTimes reports) := by
  rw [seconds_of_run h folder]
  exact Binary64.isFinite_total_map_total_iff isFinite_countedTimes

/-! ## Averages -/

/-- The methods over which a share is averaged. -/
def Share.unused : Share → Count
  | union => .unionUnused
  | input => .inputUnused
  | output => .outputUnused

namespace Averages

/-- The average number of columns that goes with a share. -/
def columns (a : Averages) : Share → Float
  | .union => a.unionColumns
  | .input => a.inputColumns
  | .output => a.outputColumns

/-- The average of a share. -/
def percentage (a : Averages) : Share → Float
  | .union => a.unionPercentage
  | .input => a.inputPercentage
  | .output => a.outputPercentage

variable (c : Counters) (interesting : Nat)

theorem isFinite_columns (r : Share) : ((of c interesting).columns r).isFinite = true := by
  have hratio (n d : Counter) :
      (ratio (Binary64.ofCounter n) (Binary64.ofCounter d)).isFinite = true :=
    (Binary64.isFinite_ratio_ofCounter_iff _ d).2 (.inl (Binary64.isFinite_ofCounter n))
  cases r <;> exact hratio _ _

theorem isFinite_percentage_iff (r : Share) : ((of c interesting).percentage r).isFinite = true ↔
    (c.getShare r).isFinite = true ∨ c.get r.unused = 0 := by
  cases r <;> exact Binary64.isFinite_ratio_ofCounter_iff _ _

theorem isFinite_secondsPerAssembly_iff :
    (of c interesting).secondsPerAssembly.isFinite = true ↔
      c.seconds.isFinite = true ∨ interesting = 0 :=
  Binary64.isFinite_ratio_ofNat_iff _ _

theorem isFinite_secondsPerMethod_iff :
    (of c interesting).secondsPerMethod.isFinite = true ↔
      c.seconds.isFinite = true ∨ c.get .interestingMethods = 0 :=
  Binary64.isFinite_ratio_ofCounter_iff _ _

/-- All averages are finite. -/
def AllFinite (a : Averages) : Prop :=
  (∀ r, (a.columns r).isFinite = true ∧ (a.percentage r).isFinite = true) ∧
    a.secondsPerAssembly.isFinite = true ∧ a.secondsPerMethod.isFinite = true

end Averages

/-- All shares and the time are finite. -/
def Counters.AllFinite (c : Counters) : Prop :=
  (∀ r, (c.getShare r).isFinite = true) ∧ c.seconds.isFinite = true

theorem Share.forall_iff {p : Share → Prop} : (∀ r, p r) ↔ p union ∧ p input ∧ p output := by
  refine ⟨fun h => ⟨h union, h input, h output⟩, ?_⟩
  rintro ⟨hunion, hinput, houtput⟩ (_ | _ | _)
  · exact hunion
  · exact hinput
  · exact houtput

/-! ## Reports -/

namespace Summary

/-- Behind the name of the folder, the text of a summary shows no number just if one of the floats
in it is not finite. -/
theorem showsNoNumber_text (s : Summary) : ∃ rest,
    s.text = Labelled.line "Analyzing folder" s.folder ++ rest ∧
      (ShowsNoNumber rest ↔ ¬(s.counters.seconds.isFinite = true ∧ s.averages.AllFinite)) := by
  refine ⟨_, rfl, ?_⟩
  have hempty : ¬ShowsNoNumber [] := by decide
  have hblank (rest : Text) : ShowsNoNumber ('\n' :: rest) ↔ ShowsNoNumber rest := by
    rw [← List.nil_append ('\n' :: rest), showsNoNumber_append_cons_iff (by decide)]
    exact or_iff_right hempty
  rw [Averages.AllFinite, Share.forall_iff]
  simp +decide only [List.flatten_cons, List.flatten_nil, Labelled.count, Labelled.counter,
    Labelled.float, showsNoNumber_line_append_iff, not_showsNoNumber_ofNat,
    not_showsNoNumber_ofCounter, showsNoNumber_twoPlaces_iff, hblank, List.cons_append,
    List.nil_append, false_or, or_false, Averages.columns, Averages.percentage, not_and_or]
  tauto

end Summary

/-- The counters of a document lack a value just if a share or the time is not finite. -/
theorem Counters.hasNull_iff (c : Counters) :
    (Json.record c.members).tree.HasNull ↔ ¬c.AllFinite := by
  rw [Json.hasNull_record_iff, AllFinite, Share.forall_iff]
  simp only [members, List.exists_mem_cons_iff, List.not_mem_nil, Json.tree_integer_ne_null,
    Json.tree_number_eq_null_iff, false_and, exists_false, false_or, or_false, not_and_or, or_assoc]

namespace Summary

/-- The document of a summary lacks a value in its counters just if one of them is not finite, and
one in its averages just if one of these is not. -/
theorem hasNull_json (s : Summary) : ∃ counters averages,
    s.json.tree.member? "counters" = some counters ∧
    s.json.tree.member? "averages" = some averages ∧
    (counters.HasNull ↔ ¬s.counters.AllFinite) ∧ (averages.HasNull ↔ ¬s.averages.AllFinite) := by
  refine ⟨_, _, rfl, rfl, s.counters.hasNull_iff, (Json.hasNull_record_iff _).trans ?_⟩
  rw [Averages.AllFinite, Share.forall_iff]
  simp only [List.exists_mem_cons_iff, List.not_mem_nil, Json.tree_number_eq_null_iff, false_and,
    exists_false, or_false, Averages.columns, Averages.percentage, not_and_or, or_assoc]

end Summary

/-- The payloads of a trace are finite, and what is made of them is finite as far as no addition on
the way is too large. A share and the time are sums of sums, finite just if none is. An average
number of columns always is finite, and any other average just if its sum is or nothing is counted
that it is taken over. The text shows no number behind the folder just if one of the floats in it is
not finite, and the document lacks a value just where a float is not finite. -/
theorem finite_of_traces (rules : Rules) (folder : Text) (h : Readable reports) :
    ∃ s, summarize rules .traces folder reports = .ok (.traces s) ∧
      (∀ r : Share, ∀ xs ∈ r.payloads reports, ∀ x ∈ xs, x.isFinite = true) ∧
      (∀ xs ∈ countedTimes reports, ∀ x ∈ xs, x.isFinite = true) ∧
      (∀ r, s.counters.getShare r = total ((r.payloads reports).map total) ∧
        ((s.counters.getShare r).isFinite = true ↔ AllInRange (r.payloads reports))) ∧
      (s.counters.seconds = total ((countedTimes reports).map total) ∧
        (s.counters.seconds.isFinite = true ↔ AllInRange (countedTimes reports))) ∧
      (∀ r, (s.averages.columns r).isFinite = true ∧ ((s.averages.percentage r).isFinite = true ↔
        AllInRange (r.payloads reports) ∨ s.counters.get r.unused = 0)) ∧
      (s.averages.secondsPerAssembly.isFinite = true ↔
        AllInRange (countedTimes reports) ∨ s.interesting = 0) ∧
      (s.averages.secondsPerMethod.isFinite = true ↔
        AllInRange (countedTimes reports) ∨ s.counters.get .interestingMethods = 0) ∧
      (∃ rest, (ReportTally.Summary.traces s).render .text =
          Labelled.line "Analyzing folder" folder ++ rest ∧
        (ShowsNoNumber rest ↔ ¬(s.counters.seconds.isFinite = true ∧ s.averages.AllFinite))) ∧
      ∃ doc tree counters averages, (ReportTally.Summary.traces s).render .json = doc ++ ['\n'] ∧
        Json.read? doc = some tree ∧ tree.member? "counters" = some counters ∧
        tree.member? "averages" = some averages ∧ (counters.HasNull ↔ ¬s.counters.AllFinite) ∧
        (averages.HasNull ↔ ¬s.averages.AllFinite) := by
  have hshare := isFinite_share_iff h folder
  have hseconds := isFinite_seconds_iff h folder
  refine ⟨_, summarize_traces rules folder h, isFinite_payloads, isFinite_countedTimes,
    fun r => ⟨share_of_run h folder r, hshare r⟩, ⟨seconds_of_run h folder, hseconds⟩,
    fun r => ⟨Averages.isFinite_columns _ _ r, ?_⟩, ?_, ?_, ?_, ?_⟩
  · rw [← hshare r]
    exact Averages.isFinite_percentage_iff _ _ r
  · rw [← hseconds]
    exact Averages.isFinite_secondsPerAssembly_iff _ _
  · rw [← hseconds]
    exact Averages.isFinite_secondsPerMethod_iff _ _
  · exact Summary.showsNoNumber_text _
  · obtain ⟨counters, averages, hmembers⟩ := Summary.hasNull_json
      ((Tally.ofOutcomes (outcomes reports)).finish folder)
    exact ⟨_, _, counters, averages, rfl, Json.read?_write _, hmembers⟩

/-- Three traces with a share that leaves no room for a second one of its sign. -/
def upAndDown : List Named :=
  [finishedTrace "!Union columns percentage count cumulative: 1.7e308",
    finishedTrace "!Union columns percentage count cumulative: -1.7e308\nUnion unused: 1",
    finishedTrace "!Union columns percentage count cumulative: 1.7e308"]

theorem finite_of_upAndDown : Readable upAndDown ∧
    ∃ s, summarize ⟨[], [], 0⟩ .traces [] upAndDown = .ok (.traces s) ∧
      (s.counters.getShare .union).isFinite = true ∧
      (s.averages.percentage .union).isFinite = true ∧
      AllInRange (Share.union.payloads upAndDown) := by
  have hr : Readable upAndDown := by decide +kernel
  have hfinite : (((Tally.ofOutcomes (outcomes upAndDown)).finish []).counters.getShare
      .union).isFinite = true := by decide +kernel
  obtain ⟨s, hs, -, -, hshare, -, haverage, -⟩ := finite_of_traces ⟨[], [], 0⟩ [] hr
  cases hs.symm.trans (summarize_traces ⟨[], [], 0⟩ [] hr)
  have hrange := (hshare .union).2.1 hfinite
  exact ⟨hr, _, hs, hfinite, (haverage .union).2.2 (.inl hrange), hrange⟩

/-- A trace with a share that is too large. -/
def tooLarge : List Named :=
  [finishedTrace ("Union unused: 1\n!Union columns percentage count cumulative: 1.7e308\n" ++
    "!Union columns percentage count cumulative: 1.7e308")]

theorem notFinite_of_tooLarge : Readable tooLarge ∧
    ∃ s, summarize ⟨[], [], 0⟩ .traces [] tooLarge = .ok (.traces s) ∧
      (s.counters.getShare .union).isFinite = false ∧
      (s.averages.percentage .union).isFinite = false ∧
      "inf".toList <:+: (ReportTally.Summary.traces s).render .text ∧
      "null".toList <:+: (ReportTally.Summary.traces s).render .json := by
  have hr : Readable tooLarge := by decide +kernel
  exact ⟨hr, _, summarize_traces _ _ hr, by decide +kernel⟩

end ReportTally.Trace
