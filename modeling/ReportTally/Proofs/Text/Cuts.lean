import Mathlib.Data.List.Basic
import Mathlib.Data.List.Induction
import ReportTally.Proofs.Text.Lines

/-!
# Cutting at a character and trimming

A text that has the separator is one text without it, the separator, and a rest, in one way only:
`before` and `after?` give these parts (`after?_eq_some_iff`, `before_append_cons`), and `fields`
cuts the rest again (`fields_append_cons`, `fields_eq_triple_iff`).

Trimming a trimmed text does nothing (`trim_trim`), and blanks that are put around a text without
blanks are trimmed again (`trim_append_append`). What stands before a separator may be trimmed
before it is cut out, if it is trimmed afterwards (`trim_before_trim`).
-/

namespace ReportTally.Text

variable {sep : Char} {t a b : Text}

/-! ## The first separator -/

theorem before_of_notMem (h : sep ∉ t) : before sep t = t := by
  refine List.takeWhile_eq_self_iff.2 fun c hc => ?_
  rw [decide_eq_true_eq]
  rintro rfl
  exact h hc

theorem notMem_before (sep : Char) (t : Text) : sep ∉ before sep t := by
  intro h
  simpa using List.mem_takeWhile_imp h

theorem before_cons_of_ne {c : Char} (h : c ≠ sep) (t : Text) :
    before sep (c :: t) = c :: before sep t :=
  List.takeWhile_cons_of_pos (by simpa using h)

theorem before_cons_self (sep : Char) (t : Text) : before sep (sep :: t) = [] :=
  List.takeWhile_cons_of_neg (by simp)

theorem before_append_of_notMem (h : sep ∉ a) (b : Text) :
    before sep (a ++ b) = a ++ before sep b := by
  induction a with
  | nil => rfl
  | cons c a ih =>
    obtain ⟨hc, ha⟩ := not_or.1 fun hmem => h (List.mem_cons.2 hmem)
    rw [List.cons_append, before_cons_of_ne (Ne.symm hc), ih ha, List.cons_append]

theorem before_append_cons (h : sep ∉ a) (b : Text) : before sep (a ++ sep :: b) = a := by
  rw [before_append_of_notMem h, before_cons_self, List.append_nil]

theorem after?_append_cons (h : sep ∉ a) (b : Text) : after? sep (a ++ sep :: b) = some b := by
  induction a with
  | nil => simp [after?]
  | cons c a ih =>
    obtain ⟨hc, ha⟩ := not_or.1 fun hmem => h (List.mem_cons.2 hmem)
    have hdrop : (c :: (a ++ sep :: b)).dropWhile (· ≠ sep) = (a ++ sep :: b).dropWhile (· ≠ sep) :=
      List.dropWhile_cons_of_pos (by simpa using Ne.symm hc)
    rw [List.cons_append, after?, hdrop]
    exact ih ha

theorem after?_eq_none_iff : after? sep t = none ↔ sep ∉ t := by
  constructor
  · intro h hmem
    obtain ⟨a, b, rfl, ha⟩ := List.eq_append_cons_of_mem hmem
    rw [after?_append_cons ha] at h
    cases h
  · intro h
    have hdrop : t.dropWhile (· ≠ sep) = [] := by
      refine List.dropWhile_eq_nil_iff.2 fun c hc => ?_
      rw [decide_eq_true_eq]
      rintro rfl
      exact h hc
    rw [after?, hdrop]

theorem after?_eq_some_iff : after? sep t = some b ↔ ∃ a, t = a ++ sep :: b ∧ sep ∉ a := by
  constructor
  · intro h
    have hmem : sep ∈ t := by
      by_contra hno
      rw [after?_eq_none_iff.2 hno] at h
      cases h
    obtain ⟨a, b', rfl, ha⟩ := List.eq_append_cons_of_mem hmem
    rw [after?_append_cons ha] at h
    cases h
    exact ⟨a, rfl, ha⟩
  · rintro ⟨a, rfl, ha⟩
    exact after?_append_cons ha b

/-! ## All separators -/

theorem fields_of_not_mem (h : sep ∉ t) : fields sep t = [t] := by
  induction t with
  | nil => rfl
  | cons c t ih =>
    obtain ⟨hc, ht⟩ := not_or.1 fun hmem => h (List.mem_cons.2 hmem)
    rw [fields_cons, if_neg (Ne.symm hc), ih ht]
    rfl

theorem fields_append_cons (h : sep ∉ t) (u : Text) :
    fields sep (t ++ sep :: u) = t :: fields sep u := by
  induction t with
  | nil => rw [List.nil_append, fields_cons, if_pos rfl]
  | cons c t ih =>
    obtain ⟨hc, ht⟩ := not_or.1 fun hmem => h (List.mem_cons.2 hmem)
    rw [List.cons_append, fields_cons, if_neg (Ne.symm hc), ih ht]
    rfl

/-- Texts without the separator are the fields of what they are joined to. -/
theorem fields_intercalate {ts : List Text} (h : ∀ t ∈ ts, sep ∉ t) (hne : ts ≠ []) :
    fields sep ([sep].intercalate ts) = ts := by
  induction ts with
  | nil => exact absurd rfl hne
  | cons t ts ih =>
    obtain ⟨ht, hts⟩ := List.forall_mem_cons.1 h
    cases ts with
    | nil => rw [List.intercalate_singleton, fields_of_not_mem ht]
    | cons u us =>
      rw [List.intercalate_cons_cons, List.append_assoc, List.singleton_append,
        fields_append_cons ht, ih hts (List.cons_ne_nil u us)]

/-- A text has more than one field just if it has the separator. -/
theorem fields_eq_cons_iff {ts : List Text} (hts : ts ≠ []) :
    fields sep t = a :: ts ↔ ∃ b, t = a ++ sep :: b ∧ sep ∉ a ∧ fields sep b = ts := by
  constructor
  · intro h
    by_cases hmem : sep ∈ t
    · obtain ⟨a', b, rfl, ha'⟩ := List.eq_append_cons_of_mem hmem
      rw [fields_append_cons ha'] at h
      obtain ⟨rfl, hb⟩ := List.cons.inj h
      exact ⟨b, rfl, ha', hb⟩
    · rw [fields_of_not_mem hmem] at h
      exact absurd (List.cons.inj h).2.symm hts
  · rintro ⟨b, rfl, ha, rfl⟩
    exact fields_append_cons ha b

theorem fields_eq_singleton_iff : fields sep t = [a] ↔ t = a ∧ sep ∉ a := by
  constructor
  · intro h
    by_cases hmem : sep ∈ t
    · obtain ⟨a', b, rfl, ha'⟩ := List.eq_append_cons_of_mem hmem
      rw [fields_append_cons ha'] at h
      exact absurd (List.cons.inj h).2 (fields_ne_nil sep b)
    · rw [fields_of_not_mem hmem] at h
      obtain ⟨rfl, -⟩ := List.cons.inj h
      exact ⟨rfl, hmem⟩
  · rintro ⟨rfl, ha⟩
    exact fields_of_not_mem ha

/-- A text has three fields just if it has two separators. -/
theorem fields_eq_triple_iff {c : Text} : fields sep t = [a, b, c] ↔
    t = a ++ sep :: (b ++ sep :: c) ∧ sep ∉ a ∧ sep ∉ b ∧ sep ∉ c := by
  rw [fields_eq_cons_iff (List.cons_ne_nil _ _)]
  simp only [fields_eq_cons_iff (List.cons_ne_nil c []), fields_eq_singleton_iff]
  constructor
  · rintro ⟨_, rfl, ha, _, rfl, hb, rfl, hc⟩
    exact ⟨rfl, ha, hb, hc⟩
  · rintro ⟨rfl, ha, hb, hc⟩
    exact ⟨_, rfl, ha, _, rfl, hb, rfl, hc⟩

/-! ## Blanks at the ends -/

/-- A text that does not start with a blank keeps its start. -/
theorem trimStart_eq_self (h : ∀ c, isBlank c = true → t.head? ≠ some c) : trimStart t = t := by
  cases t with
  | nil => rfl
  | cons c t => exact List.dropWhile_cons_of_neg fun hc => h c hc rfl

theorem trimStart_trim (t : Text) : trimStart (trim t) = trim t :=
  trimStart_eq_self fun _ hc => head?_trim hc

theorem trimEnd_trimEnd (t : Text) : trimEnd (trimEnd t) = trimEnd t :=
  List.rdropWhile_idempotent isBlank t

/-- What is trimmed has no blanks left at its ends. -/
theorem trim_trim (t : Text) : trim (trim t) = trim t := by
  rw [trim, trimStart_trim, trim, trimEnd_trimEnd]

theorem trimEnd_concat (t : Text) (c : Char) :
    trimEnd (t ++ [c]) = if isBlank c then trimEnd t else t ++ [c] :=
  List.rdropWhile_concat isBlank t c

theorem trimStart_append (ha : ∀ c ∈ a, isBlank c = true) (t : Text) :
    trimStart (a ++ t) = trimStart t :=
  List.dropWhile_append_of_pos ha

theorem trimEnd_append (hb : ∀ c ∈ b, isBlank c = true) (t : Text) :
    trimEnd (t ++ b) = trimEnd t := by
  have hreverse : ∀ c ∈ b.reverse, isBlank c = true := fun c hc => hb c (List.mem_reverse.1 hc)
  rw [trimEnd, trimEnd, List.reverse_append, List.dropWhile_append_of_pos hreverse]

/-- Blanks around a text that has none are trimmed, and nothing else is. -/
theorem trim_append_append (ha : ∀ c ∈ a, isBlank c = true) (ht : ∀ c ∈ t, isBlank c = false)
    (hb : ∀ c ∈ b, isBlank c = true) : trim (a ++ (t ++ b)) = t := by
  have hkeep (c : Char) (u : Text) (hc : isBlank c = false) : trimStart (c :: u) = c :: u :=
    List.dropWhile_cons_of_neg (by simp [hc])
  have hend : trimEnd t = t := by
    induction t using List.reverseRecOn with
    | nil => rfl
    | append_singleton t c ih =>
      rw [trimEnd_concat, if_neg]
      simp [ht c (by simp)]
  rw [trim, trimStart_append ha]
  cases t with
  | nil =>
    rw [List.nil_append, ← List.append_nil b, trimStart_append hb]
    rfl
  | cons c t =>
    rw [List.cons_append, hkeep c _ (ht c List.mem_cons_self), ← List.cons_append,
      trimEnd_append hb, hend]

/-- Blanks at the start may be dropped before or after the text is cut. -/
theorem before_trimStart (hsep : isBlank sep = false) (t : Text) :
    before sep (trimStart t) = trimStart (before sep t) := by
  induction t with
  | nil => rfl
  | cons c t ih =>
    by_cases hc : isBlank c = true
    · have hne : c ≠ sep := by
        rintro rfl
        simp [hsep] at hc
      have hdrop (u : Text) : trimStart (c :: u) = trimStart u := List.dropWhile_cons_of_pos hc
      rw [hdrop, before_cons_of_ne hne, hdrop, ih]
    · have hkeep (u : Text) : trimStart (c :: u) = c :: u := List.dropWhile_cons_of_neg hc
      rw [hkeep]
      by_cases hne : c = sep
      · subst hne
        rw [before_cons_self]
        rfl
      · rw [before_cons_of_ne hne, hkeep]

/-- Blanks at the end need not be dropped before the text is cut. -/
theorem trimEnd_before_trimEnd (hsep : isBlank sep = false) (t : Text) :
    trimEnd (before sep (trimEnd t)) = trimEnd (before sep t) := by
  induction t using List.reverseRecOn with
  | nil => rfl
  | append_singleton t c ih =>
    rw [trimEnd_concat]
    split_ifs with hc
    · rw [ih]
      by_cases hmem : sep ∈ t
      · obtain ⟨a, b, rfl, ha⟩ := List.eq_append_cons_of_mem hmem
        rw [before_append_cons ha, List.append_assoc, List.cons_append, before_append_cons ha]
      · have hne : c ≠ sep := by
          rintro rfl
          simp [hsep] at hc
        have hnil : before sep [c] = [c] := by rw [before_cons_of_ne hne]; rfl
        rw [before_of_notMem hmem, before_append_of_notMem hmem, hnil, trimEnd_concat, if_pos hc]
    · rfl

/-- A text may be trimmed before it is cut, if what is cut out is trimmed too. -/
theorem trim_before_trim (hsep : isBlank sep = false) (t : Text) :
    trim (before sep (trim t)) = trim (before sep t) := by
  calc trim (before sep (trim t))
      = trimEnd (before sep (trimStart (trim t))) := by rw [before_trimStart hsep, trim]
    _ = trimEnd (before sep (trimEnd (trimStart t))) := by rw [trimStart_trim, trim]
    _ = trimEnd (before sep (trimStart t)) := trimEnd_before_trimEnd hsep _
    _ = trim (before sep t) := by rw [before_trimStart hsep, trim]

end ReportTally.Text
