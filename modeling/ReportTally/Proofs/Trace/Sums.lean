import ReportTally.Proofs.Number.Finite
import ReportTally.Proofs.Trace.Totals

/-!
# Shares and times of traces

The shares and the time of a trace are sums of floats. `Share.payload?` says what a line gives to a
share, and `time?` what it gives to the time. A share of a trace is the sum of its payloads from
left to right (`getShare_of_ofText`). The time is the sum of the times that come before the first
count of no interesting methods, which ends them for good (`seconds_of_ofText`).

A run adds up the sums of its traces, in order (`sum_of_run`).
-/

namespace ReportTally.Trace

open Binary64 (total)

variable {s t : Text}

/-! ## One line -/

/-- What a line gives to a total, if its payload is read like this. -/
def Feeds.payload? {α : Type} (read : Text → Text → Except Flaw α) (f : Feeds) (line : Text) :
    Option α :=
  if f.label <+: Text.trim line then (read f.label (Text.trim line)).toOption else none

/-- The line of a marker gives something to the total of that marker only. -/
theorem Feeds.payload?_of_starts {α : Type} (read : Text → Text → Except Flaw α) {m : Marker}
    {line : Text} (hm : m ∈ markers) (hp : m.label <+: Text.trim line) (f : Feeds) :
    f.payload? read line =
      if m.feeds = f then (read m.label (Text.trim line)).toOption else none := by
  have hf : f.label <+: Text.trim line ↔ m.feeds = f := Feeds.label_prefix_iff hm hp f
  have hlabel : m.label = m.feeds.label := mem_markers_iff.1 hm
  rw [payload?]
  by_cases h : m.feeds = f
  · rw [if_pos (hf.2 h), if_pos h, hlabel, h]
  · rw [if_neg fun hl => h (hf.1 hl), if_neg h]

theorem Feeds.payload?_of_unknown {α : Type} (read : Text → Text → Except Flaw α) {line : Text}
    (h : ∀ m ∈ markers, ¬m.label <+: Text.trim line) (f : Feeds) : f.payload? read line = none := by
  have hf : (⟨f.label, f⟩ : Marker) ∈ markers := mem_markers_iff.2 rfl
  rw [payload?, if_neg (h _ hf)]

/-- What a line gives to a share. -/
def Share.payload? (r : Share) (line : Text) : Option Float :=
  (Feeds.share r).payload? Payload.number line

/-- What a line gives to the time. -/
def time? (line : Text) : Option Float :=
  Feeds.time.payload? Payload.elapsed line

/-- The line is a count of no interesting methods. -/
def stops (line : Text) : Bool :=
  Count.interestingMethods.payload? line = some 0

theorem Counters.getShare_bumpShare (c : Counters) (q r : Share) (x : Float) :
    (c.bumpShare q x).getShare r = if r = q then c.getShare r + x else c.getShare r := by
  unfold getShare bumpShare
  simp only [Fin.getElem_fin, Vector.getElem_set]
  split
  · next h =>
    obtain rfl : q = r := Share.index_inj.1 (Fin.ext h)
    simp [getShare]
  · next h =>
    rw [if_neg]
    rintro rfl
    exact h rfl

namespace Statistics

/-- A line changes a share by its payload for that share. -/
theorem getShare_of_feedLine (r : Share) (st : Statistics) (line : Text) (st' : Statistics)
    (h : feedLine markers st line = .ok st') : st'.counters.getShare r =
      ((r.payload? line).map (st.counters.getShare r + ·)).getD (st.counters.getShare r) := by
  rw [Share.payload?]
  by_cases hm : ∃ m ∈ markers, m.label <+: Text.trim line
  · obtain ⟨m, hm, hp⟩ := hm
    rw [feedLine_of_starts prefixFree_markers hm hp] at h
    rw [Feeds.payload?_of_starts _ hm hp]
    obtain ⟨k, n, hf, -, rfl⟩ | ⟨q, x, hf, hx, rfl⟩ | ⟨x, hf, -, rfl⟩ := feed_cases h
    · have hne : m.feeds ≠ .share r := by simp [hf]
      rw [if_neg hne]
      rfl
    · rw [Counters.getShare_bumpShare, hf, hx]
      by_cases hrq : r = q
      · subst hrq
        rw [if_pos rfl, if_pos rfl]
        rfl
      · rw [if_neg hrq, if_neg fun hc => hrq (Feeds.share.inj hc).symm]
        rfl
    · have hne : m.feeds ≠ .share r := by simp [hf]
      rw [if_neg hne]
      split <;> rfl
  · have hunknown : ∀ m ∈ markers, ¬m.label <+: Text.trim line := fun m hmem hp => hm ⟨m, hmem, hp⟩
    rw [feedLine_of_unknown hunknown] at h
    cases h
    rw [Feeds.payload?_of_unknown _ hunknown]
    rfl

/-- What a line does to the time and to whether times count. -/
def raiseTime (p : Bool × Float) (line : Text) : Bool × Float :=
  (p.1 && !stops line, if p.1 then ((time? line).map (p.2 + ·)).getD p.2 else p.2)

/-- A line raises the time while the assembly is interesting, and may end that. -/
theorem seconds_of_feedLine (st : Statistics) (line : Text) (st' : Statistics)
    (h : feedLine markers st line = .ok st') : (st'.interesting, st'.counters.seconds) =
      raiseTime (st.interesting, st.counters.seconds) line := by
  rw [raiseTime, stops, time?]
  by_cases hm : ∃ m ∈ markers, m.label <+: Text.trim line
  · obtain ⟨m, hm, hp⟩ := hm
    rw [feedLine_of_starts prefixFree_markers hm hp] at h
    rw [Feeds.payload?_of_starts _ hm hp, Count.payload?_of_starts hm hp]
    obtain ⟨k, n, hf, hn, rfl⟩ | ⟨q, x, hf, -, rfl⟩ | ⟨x, hf, hx, rfl⟩ := feed_cases h
    · rw [hf, hn]
      by_cases hk : k = .interestingMethods
      · simp [hk, Except.toOption, Counters.bump]
      · simp [hk, Counters.bump]
    · simp [hf, Counters.bumpShare]
    · rw [hf, hx]
      cases hi : st.interesting <;> simp [hi, Except.toOption, Counters.bumpSeconds]
  · have hunknown : ∀ m ∈ markers, ¬m.label <+: Text.trim line := fun m hmem hp => hm ⟨m, hmem, hp⟩
    rw [feedLine_of_unknown hunknown] at h
    cases h
    rw [Feeds.payload?_of_unknown _ hunknown, Count.payload?_of_unknown hunknown]
    simp

end Statistics

/-- A line that ends the times says no time itself. -/
theorem time?_of_stops {line : Text} (h : stops line = true) : time? line = none := by
  have hm : (⟨Count.interestingMethods.label, .count .interestingMethods⟩ : Marker) ∈ markers :=
    mem_markers_iff.2 rfl
  rw [stops, decide_eq_true_eq, Count.payload?] at h
  split_ifs at h with hp
  exact Feeds.payload?_of_starts _ hm hp .time

/-! ## One trace -/

/-- The times of the lines before the first one that ends them. -/
def times (lines : List Text) : List Float :=
  (lines.takeWhile fun line => !stops line).filterMap time?

namespace Statistics

/-- A share of a trace is the sum of its payloads, from left to right. -/
theorem getShare_of_ofText (r : Share) {st : Statistics} (h : ofText markers s = .ok st) :
    st.counters.getShare r = total ((Text.lines s).filterMap r.payload?) := by
  have hlines := foldlM_observe (fun st => st.counters.getShare r)
    (fun x line => ((r.payload? line).map (x + ·)).getD x) (getShare_of_feedLine r)
    (Text.lines s) h
  have hzero : start.counters.getShare r = 0 := by
    cases r <;> rfl
  rw [hlines, total, List.foldl_filterMap, hzero]
  congr 1
  funext x line
  cases r.payload? line <;> rfl

theorem foldl_raiseTime_of_stopped (lines : List Text) (x : Float) :
    (lines.foldl raiseTime (false, x)).2 = x := by
  induction lines with
  | nil => rfl
  | cons line lines ih => exact ih

theorem foldl_raiseTime (lines : List Text) (x : Float) :
    (lines.foldl raiseTime (true, x)).2 = (times lines).foldl (· + ·) x := by
  induction lines generalizing x with
  | nil => rfl
  | cons line lines ih =>
    rw [List.foldl_cons, raiseTime, times, List.takeWhile_cons]
    cases hs : stops line with
    | true =>
      rw [time?_of_stops hs]
      exact foldl_raiseTime_of_stopped lines x
    | false =>
      cases ht : time? line with
      | none => simpa [ht, times] using ih x
      | some y => simpa [ht, times] using ih (x + y)

/-- The time of a trace is the sum of the times that count, from left to right. -/
theorem seconds_of_ofText {st : Statistics} (h : ofText markers s = .ok st) :
    st.counters.seconds = total (times (Text.lines s)) := by
  have hlines := foldlM_observe (fun st => (st.interesting, st.counters.seconds)) raiseTime
    seconds_of_feedLine (Text.lines s) h
  exact (congrArg Prod.snd hlines).trans (foldl_raiseTime (Text.lines s) 0)

end Statistics

/-! ## Runs -/

/-- What is read from the statistics of each trace that has them. -/
def readings (value : Text → List Float) (reports : List Named) : List (List Float) :=
  reports.filterMap fun r => (statistics? r.contents).map value

/-- A sum of traces is the sum of what each of them has summed up, from left to right. -/
theorem sum_of_run (part : Counters → Float) (value : Text → List Float)
    (hzero : part .zero = 0) (hadd : ∀ c d, part (c.add d) = part c + part d)
    (hpart : ∀ s st, Statistics.ofText markers s = .ok st → part st.counters = total (value s))
    {reports : List Named} (h : Readable reports) (folder : Text) :
    part ((Tally.ofOutcomes (outcomes reports)).finish folder).counters =
      total ((readings value reports).map total) := by
  have hfold (cs : List Counters) (c : Counters) :
      part (cs.foldl Counters.add c) = (cs.map part).foldl (· + ·) (part c) := by
    induction cs generalizing c with
    | nil => rfl
    | cons d cs ih => rw [List.foldl_cons, ih, hadd, List.map_cons, List.foldl_cons]
  show part (Tally.ofOutcomes (outcomes reports)).counters = _
  rw [Tally.ofOutcomes_counters, hfold, hzero, total, outcomes, List.filterMap_filterMap,
    List.map_filterMap, readings, List.map_filterMap]
  congr 1
  refine List.filterMap_congr fun r hr => ?_
  obtain ⟨o, ho⟩ := h r hr
  rw [ho, Option.map_map]
  exact map_counters? hpart ho

end ReportTally.Trace
