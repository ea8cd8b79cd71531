import Mathlib
import ReportTally.Payload
import ReportTally.Proofs.Number.Digits
import ReportTally.Proofs.Number.Finite
import ReportTally.Proofs.Text.Cuts

/-!
# Elapsed times

A `Time` has days, hours, minutes and seconds, and `Time.IsWritten` says which texts mean it. The
whole seconds of a time are counted in 64-bit words, one product or sum after the other, and each of
them may be too large for a word. But none of them is larger than the last one, so the text is
refused just if the exact number of whole seconds is too large (`elapsed?_eq_some_iff`).

`elapsed_of_line` says what comes of any line.
-/

namespace ReportTally.Payload

open Numeral (IsWord fit? fit?_eq_some_iff word?_eq_some_iff wordLimit)

/-- An elapsed time. -/
structure Time where
  /-- The days, zero if none are given. -/
  days : Nat
  /-- The hours beside the days. -/
  hours : Nat
  /-- The minutes. -/
  minutes : Nat
  /-- The seconds and their fraction. -/
  seconds : Float

namespace Time

/-- The seconds of the days, hours and minutes. -/
def whole (e : Time) : Nat :=
  3600 * (24 * e.days + e.hours) + 60 * e.minutes

/-- All seconds, as a float. -/
def total (e : Time) : Float :=
  Binary64.ofNat e.whole + e.seconds

/-- The hours of a time: a word, or two words for days and hours about the first point. -/
def AreHours (e : Time) (t : Text) : Prop :=
  ('.' ∉ t ∧ e.days = 0 ∧ IsWord t e.hours) ∨
    ∃ d h, t = d ++ '.' :: h ∧ '.' ∉ d ∧ IsWord d e.days ∧ IsWord h e.hours

/-- The seconds of a time: a literal of a finite number that is not below zero. -/
def AreSeconds (e : Time) (t : Text) : Prop :=
  Decimal.read? t = some e.seconds ∧ e.seconds.isFinite = true ∧ ¬e.seconds < 0

/-- The text has three parts between colons: the hours, the minutes and the seconds of the time. -/
def IsWritten (e : Time) (t : Text) : Prop :=
  ∃ h m s, t = h ++ ':' :: (m ++ ':' :: s) ∧ (':' ∉ h ∧ ':' ∉ m ∧ ':' ∉ s) ∧
    e.AreHours h ∧ IsWord m e.minutes ∧ e.AreSeconds s

end Time

/-! ## The parts -/

/-- Hours are read if they are hours of a time and all of them fit into a word. -/
theorem hours?_eq_some_iff {t : Text} {n : Nat} : hours? t = some n ↔
    ∃ e : Time, e.AreHours t ∧ 24 * e.days + e.hours = n ∧ n < wordLimit := by
  unfold hours?
  cases hcut : Text.after? '.' t with
  | none =>
    have hno : '.' ∉ t := Text.after?_eq_none_iff.1 hcut
    rw [word?_eq_some_iff]
    constructor
    · intro hn
      exact ⟨⟨0, n, 0, 0⟩, Or.inl ⟨hno, rfl, hn⟩, by simp, hn.lt⟩
    · rintro ⟨e, ⟨-, hdays, hhours⟩ | ⟨d, h, rfl, -⟩, rfl, -⟩
      · simpa [hdays] using hhours
      · exact absurd (List.mem_append_right d List.mem_cons_self) hno
  | some rest =>
    obtain ⟨d, rfl, hd⟩ := Text.after?_eq_some_iff.1 hcut
    simp only [Text.before_append_cons hd, Option.bind_eq_bind, Option.bind_eq_some_iff,
      word?_eq_some_iff, fit?_eq_some_iff]
    constructor
    · rintro ⟨days, hdays, hours, hhours, _, ⟨rfl, -⟩, rfl, hlt⟩
      exact ⟨⟨days, hours, 0, 0⟩, Or.inr ⟨d, rest, rfl, hd, hdays, hhours⟩, rfl, hlt⟩
    · rintro ⟨e, ⟨hno, -⟩ | ⟨d', h, heq, hd', hdays, hhours⟩, rfl, hlt⟩
      · exact absurd (List.mem_append_right d List.mem_cons_self) hno
      · have hafter := Text.after?_append_cons hd rest
        have hbefore := Text.before_append_cons hd rest
        rw [heq, Text.after?_append_cons hd', Option.some_inj] at hafter
        rw [heq, Text.before_append_cons hd'] at hbefore
        subst hafter hbefore
        exact ⟨_, hdays, _, hhours, _, ⟨rfl, by omega⟩, rfl, hlt⟩

theorem seconds?_eq_some_iff {t : Text} {s : Float} : seconds? t = some s ↔
    Decimal.read? t = some s ∧ s.isFinite = true ∧ ¬s < 0 := by
  rw [seconds?, Option.filter_eq_some_iff, Decimal.finite?, Option.filter_eq_some_iff, and_assoc]
  simp

/-! ## The whole -/

/-- A text is read as a time that it means, if the whole seconds of the time fit into a word. No
number on the way is too large then. -/
theorem elapsed?_eq_some_iff {t : Text} {x : Float} : elapsed? t = some x ↔
    ∃ e : Time, e.IsWritten t ∧ e.whole < wordLimit ∧ x = e.total := by
  unfold elapsed?
  split
  · next h m s hfields =>
    obtain ⟨rfl, hh, hm, hs⟩ := Text.fields_eq_triple_iff.1 hfields
    simp only [Option.bind_eq_bind, Option.bind_eq_some_iff, hours?_eq_some_iff,
      word?_eq_some_iff, seconds?_eq_some_iff, fit?_eq_some_iff]
    constructor
    · rintro ⟨_, ⟨e, hhours, rfl, -⟩, minutes, hminutes, seconds, hseconds, _, ⟨rfl, -⟩, _,
        ⟨rfl, -⟩, _, ⟨rfl, hlt⟩, hx⟩
      exact ⟨⟨e.days, e.hours, minutes, seconds⟩,
        ⟨h, m, s, rfl, ⟨hh, hm, hs⟩, hhours, hminutes, hseconds⟩, hlt, (Option.some.inj hx).symm⟩
    · rintro ⟨e, ⟨h', m', s', heq, ⟨hh', hm', hs'⟩, hhours, hminutes, hseconds⟩, hlt, rfl⟩
      have hsame := Text.fields_eq_triple_iff.2 ⟨heq, hh', hm', hs'⟩
      rw [hfields] at hsame
      obtain ⟨rfl, rfl, rfl⟩ : h = h' ∧ m = m' ∧ s = s' := by simpa using hsame
      unfold Time.whole at hlt
      exact ⟨_, ⟨e, hhours, rfl, by omega⟩, _, hminutes, _, hseconds, _, ⟨rfl, by omega⟩, _,
        ⟨rfl, by omega⟩, _, ⟨rfl, hlt⟩, rfl⟩
  · next hno =>
    refine ⟨nofun, ?_⟩
    rintro ⟨e, ⟨h, m, s, heq, ⟨hh, hm, hs⟩, -⟩, -⟩
    exact absurd (Text.fields_eq_triple_iff.2 ⟨heq, hh, hm, hs⟩) (hno h m s)

theorem Time.isFinite_total {e : Time} {t : Text} (h : e.IsWritten t) (hlt : e.whole < wordLimit) :
    e.total.isFinite = true := by
  obtain ⟨_, _, _, -, -, -, -, -, hfinite, -⟩ := h
  exact Binary64.isFinite_ofNat_add hlt hfinite

theorem Time.not_total_lt_zero {e : Time} {t : Text} (h : e.IsWritten t)
    (hlt : e.whole < wordLimit) : ¬e.total < 0 := by
  have hsum := Time.isFinite_total h hlt
  obtain ⟨_, _, _, -, -, -, -, -, -, hseconds⟩ := h
  exact Binary64.not_add_lt_zero hsum (Binary64.not_ofNat_lt_zero _) hseconds

theorem isFinite_of_elapsed? {t : Text} {x : Float} (h : elapsed? t = some x) :
    x.isFinite = true := by
  obtain ⟨e, he, hlt, rfl⟩ := elapsed?_eq_some_iff.1 h
  exact Time.isFinite_total he hlt

/-! ## Lines -/

theorem elapsed_append_cons {label : Text} (h : ':' ∉ label) (marker rest : Text) :
    elapsed marker (label ++ ':' :: rest) =
      (elapsed? (Text.trim rest)).elim (.error (.notElapsed (Text.trim rest))) .ok := by
  rw [elapsed, Text.after?_append_cons h]
  dsimp only
  cases elapsed? (Text.trim rest) <;> rfl

theorem elapsed_of_notMem {line : Text} (h : ':' ∉ line) (marker : Text) :
    elapsed marker line = .error (.noColon marker line) := by
  rw [elapsed, Text.after?_eq_none_iff.2 h]

/-- A line without a colon is refused as such. Of any other line all that follows the first colon,
without the blanks at its ends, is read. If it means a time and the exact number of whole seconds
is below `2 ^ 64`, the result is this number, rounded to a float, plus the seconds with their
fraction; it is finite and not below zero. In every other case what follows the colon is refused. -/
theorem elapsed_of_line (marker line : Text) :
    (elapsed marker line = .error (.noColon marker line) ↔ ':' ∉ line) ∧
    ∀ label rest, line = label ++ ':' :: rest → ':' ∉ label →
      (∀ e : Time, e.IsWritten (Text.trim rest) → e.whole < 2 ^ 64 →
        elapsed marker line = .ok (Binary64.ofNat e.whole + e.seconds) ∧
          (Binary64.ofNat e.whole + e.seconds).isFinite = true ∧
          ¬Binary64.ofNat e.whole + e.seconds < 0) ∧
      ((¬∃ e : Time, e.IsWritten (Text.trim rest) ∧ e.whole < 2 ^ 64) →
        elapsed marker line = .error (.notElapsed (Text.trim rest))) := by
  rw [← Numeral.wordLimit_eq]
  refine ⟨⟨fun h hmem => ?_, fun h => elapsed_of_notMem h marker⟩, ?_⟩
  · obtain ⟨label, rest, rfl, hlabel⟩ := List.eq_append_cons_of_mem hmem
    rw [elapsed_append_cons hlabel] at h
    cases hread : elapsed? (Text.trim rest) <;> simp [hread] at h
  · rintro label rest rfl hlabel
    rw [elapsed_append_cons hlabel]
    constructor
    · intro e he hlt
      rw [elapsed?_eq_some_iff.2 ⟨e, he, hlt, rfl⟩]
      exact ⟨rfl, e.isFinite_total he hlt, e.not_total_lt_zero he hlt⟩
    · intro hno
      cases hread : elapsed? (Text.trim rest) with
      | none => rfl
      | some x =>
        obtain ⟨e, he, hlt, -⟩ := elapsed?_eq_some_iff.1 hread
        exact absurd ⟨e, he, hlt⟩ hno

end ReportTally.Payload
