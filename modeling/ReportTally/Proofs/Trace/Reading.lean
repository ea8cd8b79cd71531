import ReportTally.Proofs.Fold
import ReportTally.Proofs.Text.Search
import ReportTally.Proofs.Trace.Markers

/-!
# What comes of a trace

A trace that is not `Finished`, or in which the banner does not stand exactly once, is a failed
one, and nothing in it is a flaw. Of any other trace only the statistics after the banner are
read (`statistics?`), so what stands before the banner does not matter (`ofText_of_statistics?`).

A line has a flaw if it starts with a marker whose payload cannot be read (`LineFlaw`). Whether
it has one does not depend on the lines before it, although a time counts only while the assembly
is interesting. So reading the statistics ends with the first flaw of a line, if there is one
(`ofText_eq_error_iff`).

`ofText_classified` puts this together.
-/

namespace ReportTally.Trace

variable {t s : Text}

/-! ## The envelope -/

/-- The trace ends with success, up to blanks, and reports no load failure. -/
def Finished (t : Text) : Prop :=
  success <:+ Text.trim t ∧ ¬loadFailure <:+: t

theorem isFinished_iff : isFinished t = true ↔ Finished t := by
  rw [isFinished, Finished, Bool.and_eq_true, List.isSuffixOf_iff_suffix, Bool.not_eq_true',
    Text.occurs_eq_false_iff]

instance : DecidablePred Finished := fun _ => decidable_of_iff _ isFinished_iff

theorem isNative_iff : isNative t = true ↔
    ∃ line ∈ Text.lines t, loadFailure <:+: line ∧ notManaged <:+: line := by
  simp only [isNative, List.any_eq_true, Bool.and_eq_true, Text.occurs_iff]

/-- The banner starts with its only capital, so its occurrences do not overlap. -/
theorem headOnce_banner : Text.HeadOnce banner :=
  ⟨'D', "one analyzing the assembly".toList, by decide +kernel, by decide +kernel⟩

/-- The statistics of a trace: what follows the only banner of a finished trace. -/
def statistics? (t : Text) : Option Text :=
  if Finished t ∧ Text.occurrences banner t = 1 then (Text.cutAt? banner t).map Prod.snd
  else none

theorem statistics?_eq_some_iff : statistics? t = some s ↔
    Finished t ∧ Text.occurrences banner t = 1 ∧ ∃ a, t = a ++ banner ++ s := by
  unfold statistics?
  split
  · next h =>
    constructor
    · intro hs
      obtain ⟨⟨a, b⟩, hcut, rfl⟩ := Option.map_eq_some_iff.1 hs
      exact ⟨h.1, h.2, a, Text.eq_append_of_cutAt? hcut⟩
    · rintro ⟨-, hone, a, hab⟩
      cases hcut : Text.cutAt? banner t with
      | none =>
        have := (Text.cutAt?_eq_none_iff headOnce_banner.ne_nil).1 hcut
        exact absurd ⟨a, s, hab.symm⟩ this
      | some p =>
        obtain ⟨-, rfl⟩ :=
          Text.append_inj_of_occurrences_eq_one hone hab (Text.eq_append_of_cutAt? hcut)
        rfl
  · next h => exact ⟨nofun, fun ⟨hf, hone, _⟩ => absurd ⟨hf, hone⟩ h⟩

theorem exists_statistics? (hf : Finished t) (hone : Text.occurrences banner t = 1) :
    ∃ s, statistics? t = some s := by
  obtain ⟨a, s, hpieces⟩ : ∃ a s, Text.pieces banner t = [a, s] := by
    rw [← List.length_eq_two, Text.length_pieces headOnce_banner, hone]
  obtain ⟨-, hab⟩ := (Text.pieces_eq_pair_iff headOnce_banner).1 hpieces
  exact ⟨s, statistics?_eq_some_iff.2 ⟨hf, hone, a, hab⟩⟩

namespace Outcome

theorem ofText_of_not_finished (h : ¬Finished t) : ofText t = .ok (.unfinished (isNative t)) := by
  rw [ofText, ofTextWith, if_neg fun hf => h (isFinished_iff.1 hf)]

theorem ofText_of_occurrences_ne_one (hf : Finished t) (h : Text.occurrences banner t ≠ 1) :
    ofText t = .ok (.noStatistics (Text.occurrences banner t + 1)) := by
  rw [ofText, ofTextWith, if_pos (isFinished_iff.2 hf), ← Text.length_pieces headOnce_banner]
  split
  · next a b hp => exact absurd ((Text.pieces_eq_pair_iff headOnce_banner).1 hp).1 h
  · rfl

/-- Only the statistics are read. -/
theorem ofText_of_statistics? (h : statistics? t = some s) :
    ofText t = (Statistics.ofText markers s).map .parsed := by
  obtain ⟨hf, hone, a, hab⟩ := statistics?_eq_some_iff.1 h
  rw [ofText, ofTextWith, if_pos (isFinished_iff.2 hf),
    (Text.pieces_eq_pair_iff headOnce_banner).2 ⟨hone, hab⟩]
  show (Statistics.ofText markers s >>= fun st => pure (parsed st)) = _
  cases Statistics.ofText markers s <;> rfl

/-- A trace without flaws that has statistics has been read from them. -/
theorem exists_of_parsed {st : Statistics} (h : ofText t = .ok (.parsed st)) :
    ∃ s, statistics? t = some s ∧ Statistics.ofText markers s = .ok st := by
  by_cases hf : Finished t
  · by_cases hone : Text.occurrences banner t = 1
    · obtain ⟨s, hs⟩ := exists_statistics? hf hone
      rw [ofText_of_statistics? hs] at h
      refine ⟨s, hs, ?_⟩
      cases hst : Statistics.ofText markers s with
      | error e => simp [hst, Except.map] at h
      | ok st' => simpa [hst, Except.map] using h
    · rw [ofText_of_occurrences_ne_one hf hone] at h
      cases h
  · rw [ofText_of_not_finished hf] at h
    cases h

end Outcome

/-! ## Flaws -/

/-- A line of the marker has a payload that cannot be read, for the reason `e`. -/
def Marker.Flawed (m : Marker) (line : Text) (e : Flaw) : Prop :=
  match m.feeds with
  | .count _ => Payload.integer m.label line = .error e
  | .share _ => Payload.number m.label line = .error e
  | .time => Payload.elapsed m.label line = .error e

/-- Without the blanks at its ends, the line starts with a marker and its payload cannot be
read. -/
def LineFlaw (line : Text) (e : Flaw) : Prop :=
  ∃ m ∈ markers, m.label <+: Text.trim line ∧ m.Flawed (Text.trim line) e

namespace Statistics

/-- Whether a marker line can be read does not depend on the lines before it. -/
theorem feed_eq_error_iff (st : Statistics) (m : Marker) (line : Text) (e : Flaw) :
    st.feed m line = .error e ↔ m.Flawed line e := by
  unfold feed Marker.Flawed
  cases m.feeds with
  | count k => cases Payload.integer m.label line <;> simp [bind, Except.bind, pure, Except.pure]
  | share r => cases Payload.number m.label line <;> simp [bind, Except.bind, pure, Except.pure]
  | time => cases Payload.elapsed m.label line <;> simp [bind, Except.bind, pure, Except.pure]

theorem feedLine_eq_error_iff (st : Statistics) (line : Text) (e : Flaw) :
    feedLine markers st line = .error e ↔ LineFlaw line e := by
  by_cases h : ∃ m ∈ markers, m.label <+: Text.trim line
  · obtain ⟨m, hm, hp⟩ := h
    rw [feedLine_of_starts prefixFree_markers hm hp, feed_eq_error_iff]
    constructor
    · exact fun he => ⟨m, hm, hp, he⟩
    · rintro ⟨m', hm', hp', he⟩
      rwa [prefixFree_markers m hm m' hm' _ hp hp']
  · rw [feedLine_of_unknown fun m hm hp => h ⟨m, hm, hp⟩]
    exact ⟨nofun, fun ⟨m, hm, hp, _⟩ => absurd ⟨m, hm, hp⟩ h⟩

/-- Reading the statistics ends with the first flaw. -/
theorem ofText_eq_error_iff (s : Text) (e : Flaw) :
    ofText markers s = .error e ↔ FirstError LineFlaw (Text.lines s) e :=
  foldlM_eq_error_iff feedLine_eq_error_iff (Text.lines s) start e

theorem ofText_eq_ok_or_flaw (s : Text) :
    (∃ st, ofText markers s = .ok st) ∨ ∃ e, FirstError LineFlaw (Text.lines s) e :=
  foldlM_eq_ok_or_firstError feedLine_eq_error_iff (Text.lines s) start

end Statistics

/-! ## The three cases -/

/-- What comes of any trace. One that is not finished is counted as such, and as native if one
line reports a load failure and that the assembly is no managed module. One in which the banner
does not stand once is counted as having no statistics. Of any other one the lines after the
banner decide: the result is the first flaw of a line, and without flaws there are statistics.
What stands before the banner has no influence. -/
theorem ofText_classified (t : Text) :
    (¬Finished t → ∃ native, Outcome.ofText t = .ok (.unfinished native) ∧
      (native = true ↔
        ∃ line ∈ Text.lines t, loadFailure <:+: line ∧ notManaged <:+: line)) ∧
    (Finished t → Text.occurrences banner t ≠ 1 →
      Outcome.ofText t = .ok (.noStatistics (Text.occurrences banner t + 1))) ∧
    (Finished t → Text.occurrences banner t = 1 → ∃ a s, t = a ++ banner ++ s ∧
      (∀ e, Outcome.ofText t = .error e ↔ FirstError LineFlaw (Text.lines s) e) ∧
      ((¬∃ e, FirstError LineFlaw (Text.lines s) e) →
        ∃ st, Outcome.ofText t = .ok (.parsed st)) ∧
      ∀ b, Finished (b ++ banner ++ s) → Text.occurrences banner (b ++ banner ++ s) = 1 →
        Outcome.ofText (b ++ banner ++ s) = Outcome.ofText t) := by
  refine ⟨fun h => ⟨isNative t, Outcome.ofText_of_not_finished h, isNative_iff⟩,
    Outcome.ofText_of_occurrences_ne_one, fun hf hone => ?_⟩
  obtain ⟨s, hs⟩ := exists_statistics? hf hone
  obtain ⟨-, -, a, hab⟩ := statistics?_eq_some_iff.1 hs
  have hread := Outcome.ofText_of_statistics? hs
  refine ⟨a, s, hab, fun e => ?_, fun hno => ?_, fun b hb hone' => ?_⟩
  · rw [← Statistics.ofText_eq_error_iff, hread]
    cases Statistics.ofText markers s <;> simp [Except.map]
  · obtain ⟨st, hst⟩ := (Statistics.ofText_eq_ok_or_flaw s).resolve_right hno
    exact ⟨st, by rw [hread, hst]; rfl⟩
  · rw [hread, Outcome.ofText_of_statistics? (statistics?_eq_some_iff.2 ⟨hb, hone', b, rfl⟩)]

end ReportTally.Trace
