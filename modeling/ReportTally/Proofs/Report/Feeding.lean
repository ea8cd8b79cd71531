import ReportTally.Proofs.Passthrough.Rows
import ReportTally.Report.Summary

/-!
# Feeding reports

`Rejects` says which reports of a kind have a flaw, without a tally: whether a report is rejected
does not depend on the reports before it (`Tally.feed_eq_error_iff`). So a run over reports fails
with the first one that is rejected (`feedAll_eq_error_iff`), and succeeds if there is none
(`exists_feedAll_eq_ok`).

Reports of all kinds but passthrough reports are read one by one and then added to the tally;
`feedAll_of_reads` says what a run over such reports leaves.
-/

namespace ReportTally

variable {rules : Rules} {file contents : Text}

/-! ## One report -/

/-- The kind of the reports of a tally. -/
def Tally.kind : Tally → Kind
  | traces _ => .traces
  | mappings _ => .mappings
  | savings _ => .savings
  | passthrough _ => .passthrough
  | classes _ => .classes
  | exceptions _ => .exceptions

theorem Tally.kind_start (k : Kind) : (start k).kind = k := by
  cases k <;> rfl

/-- A report of a kind has this flaw. Mapping files, result files and logs have none. -/
def Rejects (rules : Rules) (kind : Kind) (contents : Text) (e : Flaw) : Prop :=
  match kind with
  | .traces => Trace.Outcome.ofText contents = .error e
  | .savings => Savings.Trace.ofText contents = .error e
  | .passthrough =>
    FirstError (Passthrough.RowFlaw rules.generatedNames) (Passthrough.rows contents) e
  | .mappings | .classes | .exceptions => False

theorem Tally.feed_eq_error_iff (rules : Rules) (t : Tally) (file contents : Text) (e : Flaw) :
    t.feed rules file contents = .error e ↔ Rejects rules t.kind contents e := by
  cases t with
  | traces t =>
    rw [feed, kind, Rejects]
    cases Trace.Outcome.ofText contents <;> simp [bind, Except.bind, pure, Except.pure]
  | savings t =>
    rw [feed, kind, Rejects]
    cases Savings.Trace.ofText contents <;> simp [bind, Except.bind, pure, Except.pure]
  | passthrough t =>
    rw [feed, kind, Rejects, ← Passthrough.Tally.addFile_eq_error_iff t file]
    cases t.addFile rules.generatedNames file contents <;>
      simp [bind, Except.bind, pure, Except.pure]
  | mappings s => simp [feed, kind, Rejects, pure, Except.pure]
  | classes s => simp [feed, kind, Rejects, pure, Except.pure]
  | exceptions s => simp [feed, kind, Rejects, pure, Except.pure]

theorem Tally.kind_of_feed {t t' : Tally} (h : t.feed rules file contents = .ok t') :
    t'.kind = t.kind := by
  cases t with
  | traces t =>
    rw [feed] at h
    cases hread : Trace.Outcome.ofText contents <;> rw [hread] at h <;> cases h
    rfl
  | savings t =>
    rw [feed] at h
    cases hread : Savings.Trace.ofText contents <;> rw [hread] at h <;> cases h
    rfl
  | passthrough t =>
    rw [feed] at h
    cases hread : t.addFile rules.generatedNames file contents <;> rw [hread] at h <;> cases h
    rfl
  | mappings s => cases h; rfl
  | classes s => cases h; rfl
  | exceptions s => cases h; rfl

/-! ## All reports -/

/-- The first report that is rejected, with its flaw. -/
def FirstRejected (rules : Rules) (kind : Kind) (reports : List Named) (x : Named × Flaw) : Prop :=
  FirstError (fun r x => r = x.1 ∧ Rejects rules kind r.contents x.2) reports x

theorem exists_firstRejected {kind : Kind} {reports : List Named} {r : Named} {e : Flaw}
    (hr : r ∈ reports) (he : Rejects rules kind r.contents e) :
    ∃ x, FirstRejected rules kind reports x := by
  unfold FirstRejected
  exact firstError_of_mem (d := (r, e)) hr ⟨rfl, he⟩

theorem feedAll_cons (rules : Rules) (t : Tally) (r : Named) (reports : List Named) :
    feedAll rules t (r :: reports) =
      ((t.feed rules r.name r.contents).mapError fun e => (r, e)) >>=
        fun t => feedAll rules t reports := by
  rw [feedAll]
  cases t.feed rules r.name r.contents <;> rfl

/-- A run fails with the first report that is rejected. -/
theorem feedAll_eq_error_iff (rules : Rules) (t : Tally) (reports : List Named)
    (x : Named × Flaw) :
    feedAll rules t reports = .error x ↔ FirstRejected rules t.kind reports x := by
  induction reports generalizing t x with
  | nil => exact ⟨nofun, fun h => (not_firstError_nil _ x h).elim⟩
  | cons r reports ih =>
    rw [feedAll_cons]
    refine bind_eq_error_iff (fun x => ?_) (fun t' ht' x => ?_) x
    · rw [← Tally.feed_eq_error_iff rules t r.name]
      obtain ⟨r', e⟩ := x
      cases t.feed rules r.name r.contents <;> simp [Except.mapError]
    · have hfeed : t.feed rules r.name r.contents = .ok t' := by
        cases h : t.feed rules r.name r.contents <;> rw [h] at ht' <;> cases ht'
        rfl
      rw [← Tally.kind_of_feed hfeed]
      exact ih t' x

theorem exists_feedAll_eq_ok {t : Tally} {reports : List Named}
    (h : ∀ r ∈ reports, ∀ e, ¬Rejects rules t.kind r.contents e) :
    ∃ t', feedAll rules t reports = .ok t' := by
  cases hrun : feedAll rules t reports with
  | ok t' => exact ⟨t', rfl⟩
  | error x =>
    obtain ⟨pre, r, post, rfl, -, -, hr⟩ := (feedAll_eq_error_iff rules t reports x).1 hrun
    exact absurd hr (h r (by simp) x.2)

theorem summarize_eq_error_iff {kind : Kind} {folder : Text} {reports : List Named}
    {x : Named × Flaw} :
    summarize rules kind folder reports = .error x ↔ FirstRejected rules kind reports x := by
  have hfeed := feedAll_eq_error_iff rules (.start kind) reports x
  rw [Tally.kind_start] at hfeed
  rw [← hfeed, summarize]
  cases feedAll rules (.start kind) reports <;> simp [bind, Except.bind, pure, Except.pure]

theorem summarize_of_feedAll {kind : Kind} {folder : Text} {reports : List Named} {t : Tally}
    {s : Summary} (h : feedAll rules (.start kind) reports = .ok t)
    (hs : t.finish rules folder = s) : summarize rules kind folder reports = .ok s := by
  rw [summarize, h, ← hs]
  rfl

theorem exists_summarize_eq_ok {kind : Kind} {reports : List Named}
    (h : ∀ r ∈ reports, ∀ e, ¬Rejects rules kind r.contents e) (folder : Text) :
    ∃ s, summarize rules kind folder reports = .ok s := by
  rw [← Tally.kind_start kind] at h
  obtain ⟨t, ht⟩ := exists_feedAll_eq_ok h
  exact ⟨t.finish rules folder, summarize_of_feedAll ht rfl⟩

/-- Reports that are read one by one: a run over them adds up what was read. -/
theorem feedAll_of_reads {α β : Type} {wrap : α → Tally} {read : Named → Except Flaw β}
    {add : α → β → α}
    (hfeed : ∀ a r, (wrap a).feed rules r.name r.contents = (read r).map fun b => wrap (add a b))
    {reports : List Named} (h : ∀ r ∈ reports, ∃ b, read r = .ok b) (a : α) :
    feedAll rules (wrap a) reports =
      .ok (wrap ((reports.filterMap fun r => (read r).toOption).foldl add a)) := by
  induction reports generalizing a with
  | nil => rfl
  | cons r reports ih =>
    obtain ⟨b, hb⟩ := h r List.mem_cons_self
    have hrest := ih (fun r' hr' => h r' (List.mem_cons_of_mem r hr')) (add a b)
    rw [feedAll_cons, hfeed, hb, List.filterMap_cons, hb]
    exact hrest

end ReportTally
