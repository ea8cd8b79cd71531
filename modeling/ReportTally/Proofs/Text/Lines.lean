import Mathlib.Data.List.DropRight
import ReportTally.Proofs.Text.Search
import ReportTally.Report.Labelled
import ReportTally.Text.Lines

/-!
# Reading lines back

No line of a text has a line feed in it (`notMem_of_mem_lines`), and what is cut out of a line has
none either. So a text that starts with a line determines the line and the rest
(`append_lineEnd_inj`), and a labelled count determines the number (`count_append_inj`).
-/

namespace ReportTally.Text

variable {s t a b : Text}

/-! ## Parts of a text -/

theorem notMem_of_mem_lines {l : Text} (h : l ∈ lines t) : '\n' ∉ l := by
  unfold lines at h
  induction t generalizing l with
  | nil => simp at h
  | cons c t ih =>
    rw [List.foldr_cons] at h
    generalize t.foldr prependToLines ([], false) = read at h ih
    unfold prependToLines at h
    split_ifs at h with hc hr
    · rcases List.mem_cons.1 h with rfl | h
      · simp
      · exact ih h
    · exact ih h
    · have hfirst : ∀ p : Text, '\n' ∉ p → '\n' ∉ c :: p := by
        intro p hp hmem
        rcases List.mem_cons.1 hmem with heq | hmem
        · exact hc heq.symm
        · exact hp hmem
      obtain ⟨ls, more⟩ := read
      cases ls with
      | nil =>
        rw [List.mem_singleton.1 h]
        exact hfirst [] (by simp)
      | cons p ps =>
        rcases List.mem_cons.1 h with rfl | h
        · exact hfirst p (ih List.mem_cons_self)
        · exact ih (List.mem_cons_of_mem p h)

theorem trimStart_isSuffix (t : Text) : trimStart t <:+ t :=
  List.dropWhile_suffix _

theorem trimEnd_isPrefix (t : Text) : trimEnd t <+: t :=
  List.rdropWhile_prefix isBlank t

theorem trim_subset (t : Text) : trim t ⊆ t :=
  fun _ h => (trimStart_isSuffix t).subset ((trimEnd_isPrefix _).subset h)

theorem before_subset (sep : Char) (t : Text) : before sep t ⊆ t :=
  (List.takeWhile_sublist _).subset

/-- A trimmed text does not start with a blank. -/
theorem head?_trim {c : Char} (hc : isBlank c = true) : (trim t).head? ≠ some c := by
  intro h
  obtain ⟨u, hu⟩ := List.head?_eq_some_iff.1 h
  obtain ⟨rest, hrest⟩ := trimEnd_isPrefix (trimStart t)
  have hnot := List.head?_dropWhile_not isBlank t
  rw [← trimStart, ← hrest, ← trim, hu] at hnot
  simp [hc] at hnot

/-! ## Lines in front of a text -/

/-- A text that starts with a line determines the line. -/
theorem append_lineEnd_inj (ha : '\n' ∉ a) (hb : '\n' ∉ b)
    (h : a ++ '\n' :: s = b ++ '\n' :: t) : a = b ∧ s = t := by
  induction a generalizing b with
  | nil =>
    cases b with
    | nil => exact ⟨rfl, (List.cons.inj h).2⟩
    | cons c b =>
      obtain ⟨rfl, -⟩ := List.cons.inj h
      exact absurd List.mem_cons_self hb
  | cons c a ih =>
    rw [List.mem_cons, not_or] at ha
    cases b with
    | nil =>
      obtain ⟨rfl, -⟩ := List.cons.inj h
      exact absurd rfl ha.1
    | cons d b =>
      rw [List.mem_cons, not_or] at hb
      obtain ⟨rfl, htail⟩ := List.cons.inj h
      obtain ⟨rfl, rfl⟩ := ih ha.2 hb.2 htail
      exact ⟨rfl, rfl⟩

theorem notMem_ofNat (n : Nat) : '\n' ∉ Numeral.ofNat n := by
  intro h
  have := Nat.isDigit_of_mem_toDigits (by decide) (by decide) h
  revert this
  decide

theorem ofNat_inj {m n : Nat} (h : Numeral.ofNat m = Numeral.ofNat n) : m = n := by
  rw [← @Nat.ofDigitChars_ten_toDigits m, ← @Nat.ofDigitChars_ten_toDigits n]
  exact congrArg (Nat.ofDigitChars 10 · 0) h

/-- A text that starts with a labelled count determines the number. -/
theorem count_append_inj {label : String} {m n : Nat}
    (h : Labelled.count label m ++ s = Labelled.count label n ++ t) : m = n ∧ s = t := by
  simp only [Labelled.count, Labelled.line, List.append_assoc, List.append_cancel_left_eq,
    List.singleton_append] at h
  obtain ⟨hnum, hrest⟩ := append_lineEnd_inj (notMem_ofNat m) (notMem_ofNat n) h
  exact ⟨ofNat_inj hnum, hrest⟩

end ReportTally.Text
