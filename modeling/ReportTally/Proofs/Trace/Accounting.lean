import Mathlib.Data.List.Count
import ReportTally.Proofs.Fold
import ReportTally.Trace.Summary

/-!
# Accounting of traces

`Tally.ofOutcomes` is the tally of a run over outcomes. Each of its numbers counts the outcomes
of one kind (`ofOutcomes_files`, `ofOutcomes_failed`, `ofOutcomes_native`,
`ofOutcomes_notInteresting`), and its totals are those of the parsed traces alone
(`ofOutcomes_counters`).

So the number of finished traces and the number of interesting ones, both differences, are what
they are called, and a failed trace leaves everything but the numbers of traces, of failures and
of native assemblies as it is (`accounting_of_run`).
-/

namespace ReportTally.Trace

/-! ## Kinds of outcomes -/

namespace Outcome

/-- The trace has statistics. -/
def isParsed : Outcome → Bool
  | parsed _ => true
  | unfinished _ => false
  | noStatistics _ => false

/-- The trace failed, and the assembly is no managed module. -/
def isNative : Outcome → Bool
  | parsed _ => false
  | unfinished native => native
  | noStatistics _ => false

/-- The trace has statistics of an interesting assembly. -/
def isInteresting : Outcome → Bool
  | parsed s => s.interesting
  | unfinished _ => false
  | noStatistics _ => false

/-- The totals of a trace with statistics. -/
def counters? : Outcome → Option Counters
  | parsed s => some s.counters
  | unfinished _ => none
  | noStatistics _ => none

theorem isParsed_of_isInteresting {o : Outcome} (h : o.isInteresting = true) :
    o.isParsed = true := by
  cases o with
  | parsed s => rfl
  | unfinished native => cases h
  | noStatistics n => cases h

theorem not_isParsed_of_isNative {o : Outcome} (h : o.isNative = true) :
    (!o.isParsed) = true := by
  cases o with
  | parsed s => cases h
  | unfinished native => rfl
  | noStatistics n => rfl

end Outcome

/-! ## One trace more -/

namespace Tally

theorem add_files (t : Tally) (o : Outcome) : (t.add o).files = t.files + 1 := by
  cases o <;> rfl

theorem add_failed (t : Tally) (o : Outcome) :
    (t.add o).failed = t.failed + if !o.isParsed then 1 else 0 := by
  cases o <;> rfl

theorem add_native (t : Tally) (o : Outcome) :
    (t.add o).native = t.native + if o.isNative then 1 else 0 := by
  cases o <;> rfl

theorem add_notInteresting (t : Tally) (o : Outcome) :
    (t.add o).notInteresting =
      t.notInteresting + if o.isParsed && !o.isInteresting then 1 else 0 := by
  cases o with
  | parsed s => cases h : s.interesting <;> simp [add, Outcome.isParsed, Outcome.isInteresting, h]
  | unfinished native => rfl
  | noStatistics n => rfl

theorem add_counters (t : Tally) (o : Outcome) :
    (t.add o).counters = (o.counters?.map t.counters.add).getD t.counters := by
  cases o <;> rfl

/-! ## Runs -/

/-- A number that every outcome of a kind raises by one counts the outcomes of that kind. -/
theorem foldl_add_eq_countP (part : Tally → Nat) (kind : Outcome → Bool)
    (h : ∀ t o, part (add t o) = part t + if kind o then 1 else 0) (os : List Outcome) (t : Tally) :
    part (os.foldl add t) = part t + os.countP kind := by
  rw [← foldl_count]
  exact (List.foldl_hom part fun t o => (h t o).symm).symm

theorem foldl_add_counters (os : List Outcome) (t : Tally) :
    (os.foldl add t).counters = (os.filterMap Outcome.counters?).foldl Counters.add t.counters := by
  induction os generalizing t with
  | nil => rfl
  | cons o os ih =>
    rw [List.foldl_cons, ih, add_counters, List.filterMap_cons]
    cases o.counters? <;> rfl

/-- The tally of outcomes, fed in order. -/
def ofOutcomes (os : List Outcome) : Tally :=
  os.foldl add {}

variable (os : List Outcome)

theorem ofOutcomes_files : (ofOutcomes os).files = os.length := by
  simpa [ofOutcomes] using foldl_add_eq_countP files (fun _ => true) add_files os {}

theorem ofOutcomes_failed : (ofOutcomes os).failed = os.countP fun o => !o.isParsed := by
  simpa [ofOutcomes] using foldl_add_eq_countP failed (fun o => !o.isParsed) add_failed os {}

theorem ofOutcomes_native : (ofOutcomes os).native = os.countP Outcome.isNative := by
  simpa [ofOutcomes] using foldl_add_eq_countP native Outcome.isNative add_native os {}

theorem ofOutcomes_notInteresting :
    (ofOutcomes os).notInteresting = os.countP fun o => o.isParsed && !o.isInteresting := by
  simpa [ofOutcomes] using foldl_add_eq_countP notInteresting _ add_notInteresting os {}

theorem ofOutcomes_counters :
    (ofOutcomes os).counters = (os.filterMap Outcome.counters?).foldl Counters.add .zero :=
  foldl_add_counters os {}

/-- The order of the outcomes changes no number of traces. -/
theorem ofOutcomes_perm {os os' : List Outcome} (h : os'.Perm os) :
    (ofOutcomes os').files = (ofOutcomes os).files ∧
      (ofOutcomes os').failed = (ofOutcomes os).failed ∧
      (ofOutcomes os').native = (ofOutcomes os).native ∧
      (ofOutcomes os').notInteresting = (ofOutcomes os).notInteresting := by
  refine ⟨?_, ?_, ?_, ?_⟩
  · rw [ofOutcomes_files, ofOutcomes_files, h.length_eq]
  · rw [ofOutcomes_failed, ofOutcomes_failed, h.countP_eq]
  · rw [ofOutcomes_native, ofOutcomes_native, h.countP_eq]
  · rw [ofOutcomes_notInteresting, ofOutcomes_notInteresting, h.countP_eq]

/-- Every trace is a failed one or has statistics. -/
theorem failed_add_parsed : (ofOutcomes os).failed + os.countP Outcome.isParsed =
    (ofOutcomes os).files := by
  have := List.length_eq_countP_add_countP Outcome.isParsed (l := os)
  simp only [Bool.not_eq_true] at this
  rw [ofOutcomes_failed, ofOutcomes_files, this, Nat.add_comm]
  simp

/-- Every trace with statistics is of an interesting assembly or not. -/
theorem notInteresting_add_interesting :
    (ofOutcomes os).notInteresting + os.countP Outcome.isInteresting =
      os.countP Outcome.isParsed := by
  rw [ofOutcomes_notInteresting]
  induction os with
  | nil => rfl
  | cons o os ih =>
    simp only [List.countP_cons]
    cases hp : o.isParsed with
    | false =>
      have hi : o.isInteresting = false := by
        cases hi : o.isInteresting with
        | false => rfl
        | true => rw [Outcome.isParsed_of_isInteresting hi] at hp; cases hp
      simpa [hi] using ih
    | true =>
      cases hi : o.isInteresting <;> simp <;> omega

theorem native_le_failed : (ofOutcomes os).native ≤ (ofOutcomes os).failed := by
  rw [ofOutcomes_native, ofOutcomes_failed]
  exact List.countP_mono_left fun o _ => Outcome.not_isParsed_of_isNative

theorem ofOutcomes_filter_notInteresting :
    (ofOutcomes (os.filter Outcome.isParsed)).notInteresting = (ofOutcomes os).notInteresting := by
  rw [ofOutcomes_notInteresting, ofOutcomes_notInteresting, List.countP_filter]
  congr 1
  funext o
  cases o.isParsed <;> simp

theorem ofOutcomes_filter_counters :
    (ofOutcomes (os.filter Outcome.isParsed)).counters = (ofOutcomes os).counters := by
  rw [ofOutcomes_counters, ofOutcomes_counters, List.filterMap_filter]
  congr 2
  funext o
  cases o <;> rfl

end Tally

/-! ## Summaries -/

namespace Summary

theorem succeeded_finish (os : List Outcome) (folder : Text) :
    ((Tally.ofOutcomes os).finish folder).succeeded = os.countP Outcome.isParsed := by
  have := Tally.failed_add_parsed os
  show (Tally.ofOutcomes os).files - (Tally.ofOutcomes os).failed = _
  omega

theorem interesting_finish (os : List Outcome) (folder : Text) :
    ((Tally.ofOutcomes os).finish folder).interesting = os.countP Outcome.isInteresting := by
  have := Tally.notInteresting_add_interesting os
  show ((Tally.ofOutcomes os).finish folder).succeeded - (Tally.ofOutcomes os).notInteresting = _
  rw [succeeded_finish]
  omega

theorem averages_finish (os : List Outcome) (folder : Text) :
    ((Tally.ofOutcomes os).finish folder).averages =
      .of (Tally.ofOutcomes os).counters (os.countP Outcome.isInteresting) := by
  rw [← interesting_finish os folder]
  rfl

end Summary

/-- The numbers of a summary are what they are called, so no difference of them is cut off at
zero. Without the failed traces only the numbers of traces, of failures and of native assemblies
are other ones. -/
theorem accounting_of_run (os : List Outcome) (folder : Text) :
    let s := (Tally.ofOutcomes os).finish folder
    let p := (Tally.ofOutcomes (os.filter Outcome.isParsed)).finish folder
    (s.files = os.length ∧ s.failed = os.countP (fun o => !o.isParsed) ∧
      s.native = os.countP Outcome.isNative ∧ s.native ≤ s.failed ∧
      s.failed + s.notInteresting ≤ s.files ∧
      s.succeeded = os.countP Outcome.isParsed ∧ s.failed + s.succeeded = s.files ∧
      s.interesting = os.countP Outcome.isInteresting ∧
      s.notInteresting + s.interesting = s.succeeded) ∧
    (p.counters = s.counters ∧ p.averages = s.averages ∧ p.notInteresting = s.notInteresting ∧
      p.succeeded = s.succeeded ∧ p.interesting = s.interesting) := by
  intro s p
  have hsucceeded : s.succeeded = os.countP Outcome.isParsed := Summary.succeeded_finish os folder
  have hinteresting : s.interesting = os.countP Outcome.isInteresting :=
    Summary.interesting_finish os folder
  have hfiles : s.failed + os.countP Outcome.isParsed = s.files := Tally.failed_add_parsed os
  have hsplit : s.notInteresting + os.countP Outcome.isInteresting = os.countP Outcome.isParsed :=
    Tally.notInteresting_add_interesting os
  have hparsed : (os.filter Outcome.isParsed).countP Outcome.isParsed =
      os.countP Outcome.isParsed := by
    rw [List.countP_filter]
    simp
  have hkept : (os.filter Outcome.isParsed).countP Outcome.isInteresting =
      os.countP Outcome.isInteresting := by
    rw [List.countP_filter]
    congr 1
    funext o
    cases o <;> simp [Outcome.isParsed, Outcome.isInteresting]
  refine ⟨⟨Tally.ofOutcomes_files os, Tally.ofOutcomes_failed os, Tally.ofOutcomes_native os,
    Tally.native_le_failed os, by omega, hsucceeded, by omega, hinteresting, by omega⟩,
    Tally.ofOutcomes_filter_counters os, ?_, Tally.ofOutcomes_filter_notInteresting os, ?_, ?_⟩
  · rw [Summary.averages_finish, Summary.averages_finish, Tally.ofOutcomes_filter_counters, hkept]
  · rw [hsucceeded, Summary.succeeded_finish, hparsed]
  · rw [hinteresting, Summary.interesting_finish, hkept]

end ReportTally.Trace
