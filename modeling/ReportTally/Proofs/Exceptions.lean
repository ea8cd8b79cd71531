import Mathlib.Data.List.Forall2
import ReportTally.Proofs.Report.Feeding
import ReportTally.Proofs.Text.LineEnds

/-!
# Sites of exceptions

The marker of an exception does not reach across lines, so a log has a site just if the marker
occurs in it at all (`exists_context?_iff`). What is reported are the lines after the first line
with the marker, as many as are asked for or as there are (`context?_eq_some_iff`), so asking for
fewer lines cuts the report short and changes nothing else (`context?_of_le`).

A run over logs has one site for every log with the marker, in the order of the logs
(`sites_forall₂`). `sites_of_logs` puts this together.
-/

namespace ReportTally.Exceptions

variable {m n : Nat} {t : Text} {ls : List Text}

/-! ## One log -/

theorem oneLine_marker : Text.OneLine marker := by
  constructor <;> decide

/-- These are the first `n` of the lines after the first line with the marker, or all of them if
there are fewer. -/
def IsContext (n : Nat) (t : Text) (ls : List Text) : Prop :=
  ∃ pre line post, Text.lines t = pre ++ line :: post ∧ (∀ l ∈ pre, ¬marker <:+: l) ∧
    marker <:+: line ∧ ls <+: post ∧ ls.length = min n post.length

theorem prefix_and_length_iff {post : List Text} :
    ls <+: post ∧ ls.length = min n post.length ↔ post.take n = ls := by
  constructor
  · rintro ⟨hstart, hlength⟩
    rw [List.prefix_iff_eq_take.1 hstart, hlength, ← List.take_eq_take_min]
  · rintro rfl
    exact ⟨List.take_prefix n post, List.length_take⟩

theorem context?_eq_some_iff : context? n t = some ls ↔ IsContext n t ls := by
  simp only [IsContext, prefix_and_length_iff]
  unfold context?
  cases h : (Text.lines t).dropWhile (!Text.occurs marker ·) with
  | nil =>
    refine iff_of_false nofun ?_
    rintro ⟨pre, line, post, hlines, -, hline, -⟩
    exact Text.dropWhile_not_occurs_eq_nil_iff.1 h line (by simp [hlines]) hline
  | cons line post =>
    rw [Option.some_inj]
    constructor
    · rintro rfl
      obtain ⟨pre, hlines, hpre, hline⟩ := Text.dropWhile_not_occurs_eq_cons_iff.1 h
      exact ⟨pre, line, post, hlines, hpre, hline, rfl⟩
    · rintro ⟨pre, line', post', hlines, hpre, hline, rfl⟩
      rw [Text.dropWhile_not_occurs_eq_cons_iff.2 ⟨pre, hlines, hpre, hline⟩] at h
      rw [(List.cons.inj h).2]

/-- A log has a site just if the marker occurs in it. -/
theorem exists_context?_iff : (∃ ls, context? n t = some ls) ↔ marker <:+: t := by
  rw [Text.infix_iff_exists_mem_lines oneLine_marker (by decide)]
  unfold context?
  cases h : (Text.lines t).dropWhile (!Text.occurs marker ·) with
  | nil =>
    refine iff_of_false nofun ?_
    rintro ⟨line, hline, hmarker⟩
    exact Text.dropWhile_not_occurs_eq_nil_iff.1 h line hline hmarker
  | cons line post =>
    obtain ⟨pre, hlines, -, hline⟩ := Text.dropWhile_not_occurs_eq_cons_iff.1 h
    exact iff_of_true ⟨_, rfl⟩ ⟨line, by simp [hlines], hline⟩

/-- Of fewer lines the first ones stay. -/
theorem context?_of_le (h : m ≤ n) : context? m t = (context? n t).map (List.take m) := by
  unfold context?
  split
  · rfl
  · rw [Option.map_some, List.take_take, min_eq_left h]

/-! ## All logs -/

/-- The site of a log. -/
def site? (n : Nat) (r : Named) : Option Site :=
  (context? n r.contents).map fun ls => ⟨r.name, ls⟩

/-- The logs with the marker have sites, one each and in their order. -/
theorem sites_forall₂ (n : Nat) (reports : List Named) :
    List.Forall₂ (fun r site => site.file = r.name ∧ IsContext n r.contents site.context)
      (reports.filter fun r => marker <:+: r.contents) (reports.filterMap (site? n)) := by
  induction reports with
  | nil => exact .nil
  | cons r reports ih =>
    by_cases hr : marker <:+: r.contents
    · obtain ⟨ls, hls⟩ := exists_context?_iff.2 hr
      have hsite : site? n r = some ⟨r.name, ls⟩ := by rw [site?, hls, Option.map_some]
      rw [List.filter_cons_of_pos (by simpa using hr), List.filterMap_cons_some hsite]
      exact .cons ⟨rfl, context?_eq_some_iff.1 hls⟩ ih
    · have hnone : context? n r.contents = none := by
        rw [Option.eq_none_iff_forall_ne_some]
        exact fun ls hls => hr (exists_context?_iff.1 ⟨ls, hls⟩)
      have hsite : site? n r = none := by rw [site?, hnone, Option.map_none]
      rwa [List.filter_cons_of_neg (by simpa using hr), List.filterMap_cons_none hsite]

theorem Summary.foldl_add (n : Nat) (reports : List Named) (s : Summary) :
    reports.foldl (fun s r => s.add r.name (context? n r.contents)) s =
      { s with
        files := s.files + reports.length
        sites := s.sites ++ reports.filterMap (site? n) } := by
  induction reports generalizing s with
  | nil => simp
  | cons r reports ih =>
    rw [List.foldl_cons, ih, List.length_cons, Nat.add_comm reports.length, List.filterMap_cons]
    unfold add site?
    cases context? n r.contents <;> simp [Nat.add_assoc]

theorem summarize_exceptions (rules : Rules) (folder : Text) (reports : List Named) :
    summarize rules .exceptions folder reports =
      .ok (.exceptions
        { folder := folder
          files := reports.length
          sites := reports.filterMap (site? rules.contextLines) }) := by
  have hfeed (s : Summary) (r : Named) : (Tally.exceptions s).feed rules r.name r.contents =
      (Except.ok r).map fun r =>
        .exceptions (s.add r.name (context? rules.contextLines r.contents)) :=
    rfl
  have hread : (reports.filterMap fun r => (Except.ok r : Except Flaw Named).toOption) = reports :=
    List.filterMap_some
  have hrun := feedAll_of_reads hfeed (fun r (_ : r ∈ reports) => ⟨_, rfl⟩) {}
  rw [hread, Summary.foldl_add] at hrun
  refine summarize_of_feedAll hrun ?_
  simp [Tally.finish]

/-- A log has a site just if the marker occurs anywhere in it, however many lines are asked for. The
site holds the lines after the first line with the marker, as they are and in their order: as many
as are asked for, or all if there are fewer. So what is reported for fewer lines is a prefix of what
is reported for more. A run over any logs succeeds, counts all of them, and has one site for each
log with the marker, in the order of the logs and under their names. -/
theorem sites_of_logs :
    (∀ n t, (∃ ls, context? n t = some ls) ↔ marker <:+: t) ∧
      (∀ n t ls, context? n t = some ls ↔ IsContext n t ls) ∧
      (∀ m n t ls, m ≤ n → context? n t = some ls →
        ∃ ls', context? m t = some ls' ∧ ls' <+: ls) ∧
      ∀ (rules : Rules) (folder : Text) (reports : List Named), ∃ s : Summary,
        summarize rules .exceptions folder reports = .ok (.exceptions s) ∧
          s.files = reports.length ∧
          List.Forall₂
            (fun r site => site.file = r.name ∧
              IsContext rules.contextLines r.contents site.context)
            (reports.filter fun r => marker <:+: r.contents) s.sites := by
  refine ⟨fun n t => exists_context?_iff, fun n t ls => context?_eq_some_iff,
    fun m n t ls hmn hls => ?_, fun rules folder reports => ?_⟩
  · refine ⟨ls.take m, ?_, List.take_prefix m ls⟩
    rw [context?_of_le hmn, hls, Option.map_some]
  · exact ⟨_, summarize_exceptions rules folder reports, rfl, sites_forall₂ _ reports⟩

/-- A log that throws twice, and ends its lines in two ways. -/
def twoThrows : Text :=
  "start\nThrow exception A\r\n  at F\nThrow exception B\r\nlast".toList

/-- Later throws are lines like any other, and the log without a throw is counted only. -/
theorem sites_of_twoThrows :
    context? 9 twoThrows = some ["  at F".toList, "Throw exception B".toList, "last".toList] ∧
      (∃ ls, context? 2 twoThrows = some ls ∧
        ls <+: ["  at F".toList, "Throw exception B".toList, "last".toList]) ∧
      ∃ s : Summary, summarize ⟨[], [], 2⟩ .exceptions []
          [⟨['a'], "Throw\nexception".toList⟩, ⟨['b'], twoThrows⟩] = .ok (.exceptions s) ∧
        s.files = 2 ∧ s.sites.map Site.file = [['b']] := by
  obtain ⟨-, -, hfewer, hrun⟩ := sites_of_logs
  have hall : context? 9 twoThrows =
      some ["  at F".toList, "Throw exception B".toList, "last".toList] := by decide +kernel
  obtain ⟨s, hs, hfiles, hsites⟩ := hrun ⟨[], [], 2⟩ []
    [⟨['a'], "Throw\nexception".toList⟩, ⟨['b'], twoThrows⟩]
  refine ⟨hall, hfewer 2 9 _ _ (by decide) hall, s, hs, hfiles, ?_⟩
  have hthrows : ([⟨['a'], "Throw\nexception".toList⟩, ⟨['b'], twoThrows⟩] : List Named).filter
      (fun r => marker <:+: r.contents) = [⟨['b'], twoThrows⟩] := by decide +kernel
  rw [hthrows] at hsites
  obtain ⟨site, rest, hsite, hrest, hcons⟩ := List.forall₂_cons_left_iff.1 hsites
  rw [hcons, List.forall₂_nil_left_iff.1 hrest, List.map_singleton, hsite.1]

end ReportTally.Exceptions
