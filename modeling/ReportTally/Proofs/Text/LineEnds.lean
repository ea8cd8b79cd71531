import Mathlib.Data.List.Induction
import ReportTally.Proofs.Text.Cuts
import ReportTally.Proofs.Text.Search
import ReportTally.Text.Lines

/-!
# Line ends

`Text.toCrlf` ends the lines of a text with a carriage return and a line feed instead of a line
feed. In a text without carriage returns this changes no line (`lines_toCrlf`). It adds characters
between the lines only, so a needle that could not stand across two lines (`OneLine`) is found at
the same places (`prefix_toCrlf_iff`, `infix_toCrlf_iff`, `occurrences_toCrlf`,
`suffix_toCrlf_iff`), and both line ends are blank, so `trim` drops them alike (`trim_toCrlf`).

For the same reason such a needle occurs in a text just if it occurs in one of its lines
(`infix_iff_exists_mem_lines`).
-/

namespace ReportTally.Text

variable {needle t : Text} {c : Char}

/-- The text with a carriage return before every line feed. -/
def toCrlf (t : Text) : Text :=
  t.flatMap fun c => if c = '\n' then ['\r', '\n'] else [c]

@[simp] theorem toCrlf_nil : toCrlf [] = [] :=
  rfl

@[simp] theorem toCrlf_lf (t : Text) : toCrlf ('\n' :: t) = '\r' :: '\n' :: toCrlf t :=
  rfl

theorem toCrlf_cons (h : c ≠ '\n') (t : Text) : toCrlf (c :: t) = c :: toCrlf t := by
  simp [toCrlf, h]

theorem toCrlf_append (s t : Text) : toCrlf (s ++ t) = toCrlf s ++ toCrlf t :=
  List.flatMap_append

/-- A text that no line end is part of. -/
def OneLine (t : Text) : Prop :=
  '\n' ∉ t ∧ '\r' ∉ t

theorem OneLine.toCrlf (h : OneLine t) : toCrlf t = t := by
  induction t with
  | nil => rfl
  | cons c t ih =>
    obtain ⟨hn, hr⟩ := h
    rw [List.mem_cons, not_or] at hn hr
    rw [toCrlf_cons (Ne.symm hn.1), ih ⟨hn.2, hr.2⟩]

/-! ## Lines -/

theorem lines_toCrlf (h : '\r' ∉ t) : lines (toCrlf t) = lines t := by
  induction t with
  | nil => rfl
  | cons c t ih =>
    rw [List.mem_cons, not_or] at h
    by_cases hc : c = '\n'
    · subst hc
      rw [toCrlf_lf, lines_crlf, lines_lf, ih h.2]
    · have hcr : c ≠ '\r' := Ne.symm h.1
      rw [toCrlf_cons hc, lines_cons hc fun he => absurd he hcr,
        lines_cons hc fun he => absurd he hcr, ih h.2]

/-! ## Searching -/

theorem prefix_toCrlf_iff (hn : OneLine needle) : needle <+: toCrlf t ↔ needle <+: t := by
  induction needle generalizing t with
  | nil => simp
  | cons x needle ih =>
    obtain ⟨hlf, hcr⟩ := hn
    rw [List.mem_cons, not_or] at hlf hcr
    cases t with
    | nil => simp
    | cons c t =>
      by_cases hc : c = '\n'
      · subst hc
        simp [List.cons_prefix_cons, Ne.symm hlf.1, Ne.symm hcr.1]
      · rw [toCrlf_cons hc, List.cons_prefix_cons, List.cons_prefix_cons, ih ⟨hlf.2, hcr.2⟩]

/-- No occurrence starts at a line end. -/
theorem not_prefix_of_lineEnd (hn : OneLine needle) (hne : needle ≠ []) (hc : c = '\n' ∨ c = '\r')
    (t : Text) : ¬needle <+: c :: t := by
  obtain ⟨x, needle, rfl⟩ := List.exists_cons_of_ne_nil hne
  rw [List.cons_prefix_cons]
  rintro ⟨rfl, -⟩
  rcases hc with rfl | rfl
  · exact hn.1 List.mem_cons_self
  · exact hn.2 List.mem_cons_self

theorem occurrences_toCrlf (hn : OneLine needle) (hne : needle ≠ []) :
    occurrences needle (toCrlf t) = occurrences needle t := by
  induction t with
  | nil => rfl
  | cons c t ih =>
    by_cases hc : c = '\n'
    · subst hc
      have hend := not_prefix_of_lineEnd hn hne (Or.inl rfl)
      have hstart := not_prefix_of_lineEnd hn hne (Or.inr rfl)
      rw [toCrlf_lf, occurrences_cons, occurrences_cons, occurrences_cons, if_neg (hstart _),
        if_neg (hend _), if_neg (hend _), ih]
    · have hstarts : needle <+: c :: toCrlf t ↔ needle <+: c :: t := by
        rw [← toCrlf_cons hc, prefix_toCrlf_iff hn]
      rw [toCrlf_cons hc, occurrences_cons, occurrences_cons, ih]
      simp only [hstarts]

theorem infix_toCrlf_iff (hn : OneLine needle) : needle <:+: toCrlf t ↔ needle <:+: t := by
  by_cases hne : needle = []
  · simp [hne]
  induction t with
  | nil => rfl
  | cons c t ih =>
    by_cases hc : c = '\n'
    · subst hc
      have hend := not_prefix_of_lineEnd hn hne (Or.inl rfl)
      have hstart := not_prefix_of_lineEnd hn hne (Or.inr rfl)
      rw [toCrlf_lf, List.infix_cons_iff, List.infix_cons_iff, List.infix_cons_iff, ih]
      simp [hstart, hend]
    · rw [List.infix_cons_iff, ← ih, ← prefix_toCrlf_iff hn, toCrlf_cons hc, List.infix_cons_iff]

/-- `List.cons_prefix_cons` from the other end. -/
theorem concat_suffix_concat_iff {s t : Text} {c d : Char} :
    s ++ [c] <:+ t ++ [d] ↔ c = d ∧ s <:+ t := by
  rw [List.suffix_concat_iff]
  simp

theorem suffix_toCrlf_iff (hn : OneLine needle) : needle <:+ toCrlf t ↔ needle <:+ t := by
  induction needle using List.reverseRecOn generalizing t with
  | nil => simp
  | append_singleton needle x ih =>
    have hlf : x ≠ '\n' := by
      rintro rfl
      exact hn.1 (by simp)
    have hrest : OneLine needle :=
      ⟨fun h => hn.1 (List.mem_append_left _ h), fun h => hn.2 (List.mem_append_left _ h)⟩
    cases t using List.reverseRecOn with
    | nil => rfl
    | append_singleton t c =>
      rw [toCrlf_append, concat_suffix_concat_iff]
      by_cases hc : c = '\n'
      · subst hc
        rw [toCrlf_lf, toCrlf_nil, List.append_cons (toCrlf t), concat_suffix_concat_iff]
        simp [hlf]
      · rw [toCrlf_cons hc, toCrlf_nil, concat_suffix_concat_iff, ih hrest]

/-! ## Searching line by line -/

/-- A character ends a line, or starts a line end, or belongs to the first line of the rest. -/
theorem lines_cons_cases (c : Char) (t : Text) :
    c = '\n' ∧ lines (c :: t) = [] :: lines t ∨
      c = '\r' ∧ lines (c :: t) = lines t ∧ (lines t).head? = some [] ∨
      lines (c :: t) = extendFirst c (lines t) := by
  by_cases hlf : c = '\n'
  · subst hlf
    exact Or.inl ⟨rfl, lines_lf t⟩
  by_cases hcr : c = '\r' → t.head? ≠ some '\n'
  · exact Or.inr (Or.inr (lines_cons hlf hcr))
  · push Not at hcr
    obtain ⟨rfl, hhead⟩ := hcr
    obtain ⟨u, rfl⟩ := List.head?_eq_some_iff.1 hhead
    exact Or.inr (Or.inl ⟨rfl, rfl, rfl⟩)

/-- A needle that no line end is part of starts a text just if it starts its first line. -/
theorem prefix_iff_prefix_head_lines (hn : OneLine needle) :
    needle <+: t ↔ needle <+: (lines t).headD [] := by
  induction needle generalizing t with
  | nil => simp
  | cons x needle ih =>
    cases t with
    | nil => rfl
    | cons c t =>
      have hend := not_prefix_of_lineEnd hn (List.cons_ne_nil x needle) (c := c)
      have hrest : OneLine needle :=
        ⟨fun h => hn.1 (List.mem_cons_of_mem x h), fun h => hn.2 (List.mem_cons_of_mem x h)⟩
      rcases lines_cons_cases c t with ⟨hc, hlines⟩ | ⟨hc, hlines, hhead⟩ | hlines
      · rw [hlines]
        exact iff_of_false (hend (Or.inl hc) t) (by simp)
      · rw [hlines, List.headD_eq_head?_getD, hhead]
        exact iff_of_false (hend (Or.inr hc) t) (by simp)
      · have hfirst : (extendFirst c (lines t)).headD [] = c :: (lines t).headD [] := by
          cases lines t <;> rfl
        rw [hlines, hfirst, List.cons_prefix_cons, List.cons_prefix_cons, ih hrest]

/-- A needle that no line end is part of occurs in a text just if it occurs in one of its lines. -/
theorem infix_iff_exists_mem_lines (hn : OneLine needle) (hne : needle ≠ []) :
    needle <:+: t ↔ ∃ l ∈ lines t, needle <:+: l := by
  induction t with
  | nil => simp [hne]
  | cons c t ih =>
    have hend := not_prefix_of_lineEnd hn hne (c := c)
    have hstart := prefix_iff_prefix_head_lines hn (t := c :: t)
    rw [List.infix_cons_iff, ih]
    rcases lines_cons_cases c t with ⟨hc, hlines⟩ | ⟨hc, hlines, -⟩ | hlines
    · rw [hlines, or_iff_right (hend (Or.inl hc) t)]
      simp [hne]
    · rw [hlines, or_iff_right (hend (Or.inr hc) t)]
    · rw [hstart, hlines]
      cases lines t with
      | nil => simp [extendFirst, List.infix_cons_iff, hne]
      | cons l ls => simp [extendFirst, List.infix_cons_iff, or_assoc]

/-! ## Blanks -/

theorem trimStart_toCrlf (t : Text) : trimStart (toCrlf t) = toCrlf (trimStart t) := by
  have hlf : isBlank '\n' = true := by decide
  have hcr : isBlank '\r' = true := by decide
  induction t with
  | nil => rfl
  | cons c t ih =>
    unfold trimStart at ih ⊢
    by_cases hc : c = '\n'
    · subst hc
      rw [toCrlf_lf, List.dropWhile_cons_of_pos hcr, List.dropWhile_cons_of_pos hlf, ih,
        List.dropWhile_cons_of_pos hlf]
    · rw [toCrlf_cons hc, List.dropWhile_cons, List.dropWhile_cons, ih]
      split
      · rfl
      · rw [toCrlf_cons hc]

theorem trimEnd_toCrlf (t : Text) : trimEnd (toCrlf t) = toCrlf (trimEnd t) := by
  have hlf : isBlank '\n' = true := by decide
  have hcr : isBlank '\r' = true := by decide
  induction t using List.reverseRecOn with
  | nil => rfl
  | append_singleton t c ih =>
    rw [toCrlf_append, trimEnd_concat]
    by_cases hc : c = '\n'
    · subst hc
      rw [if_pos hlf, ← ih, toCrlf_lf, toCrlf_nil, List.append_cons, trimEnd_concat,
        trimEnd_concat, if_pos hlf, if_pos hcr]
    · rw [toCrlf_cons hc, toCrlf_nil, trimEnd_concat, ih]
      split
      · rfl
      · rw [toCrlf_append, toCrlf_cons hc, toCrlf_nil]

theorem trim_toCrlf (t : Text) : trim (toCrlf t) = toCrlf (trim t) := by
  rw [trim, trimStart_toCrlf, trimEnd_toCrlf, trim]

end ReportTally.Text
