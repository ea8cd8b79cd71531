import Mathlib.Data.List.Infix
import ReportTally.Proofs.Number.Digits
import ReportTally.Proofs.Report.Documents

/-!
# How floats appear in reports

A text report writes a float that is not finite as `inf` or `NaN`, and in no other place but the
name of the folder do these words stand (`ShowsNoNumber`): the characters that follow a label are
digits, a point and a sign for all that is finite (`showsNoNumber_twoPlaces_iff`), and a word does
not reach across the colon or the end of a line (`showsNoNumber_line_append_iff`).

A JSON report writes it as nothing, and writes everything else as something
(`tree_number_eq_null_iff`).
-/

namespace ReportTally

/-! ## Words in lines -/

theorem Text.isPrefix_append_cons_iff {m a b : Text} {c : Char} (hc : c ∉ m) :
    m <+: a ++ c :: b ↔ m <+: a := by
  refine ⟨fun h => ?_, fun h => h.trans (List.prefix_append a _)⟩
  rcases List.prefix_or_prefix_of_prefix h (List.prefix_append a (c :: b)) with hm | ⟨v, rfl⟩
  · exact hm
  · rw [List.prefix_append_right_inj] at h
    cases v with
    | nil => simp
    | cons d v =>
      obtain rfl : d = c := (List.cons_prefix_cons.1 h).1
      exact absurd (by simp) hc

/-- A word does not reach across a character that it does not contain. -/
theorem Text.infix_append_cons_iff {m a b : Text} {c : Char} (hm : m ≠ []) (hc : c ∉ m) :
    m <:+: a ++ c :: b ↔ m <:+: a ∨ m <:+: b := by
  induction a with
  | nil =>
    have hhead : ¬m <+: c :: b := fun h =>
      hm (List.prefix_nil.1 ((isPrefix_append_cons_iff (a := []) hc).1 h))
    rw [List.nil_append, List.infix_cons_iff, List.infix_nil]
    exact ⟨fun h => Or.inr (h.resolve_left hhead), fun h => Or.inr (h.resolve_left hm)⟩
  | cons d a ih =>
    rw [List.cons_append, List.infix_cons_iff, ih, ← List.cons_append,
      isPrefix_append_cons_iff hc, List.infix_cons_iff, or_assoc]

/-- The words for floats that are not finite. -/
def ShowsNoNumber (t : Text) : Prop :=
  "inf".toList <:+: t ∨ "NaN".toList <:+: t

instance (t : Text) : Decidable (ShowsNoNumber t) :=
  inferInstanceAs (Decidable (_ ∨ _))

theorem showsNoNumber_append_cons_iff {a b : Text} {c : Char} (h : c ∉ "infNa".toList) :
    ShowsNoNumber (a ++ c :: b) ↔ ShowsNoNumber a ∨ ShowsNoNumber b := by
  have hinf : c ∉ "inf".toList := fun hmem => h (by revert hmem; simp; tauto)
  have hnan : c ∉ "NaN".toList := fun hmem => h (by revert hmem; simp; tauto)
  rw [ShowsNoNumber, Text.infix_append_cons_iff (by decide) hinf,
    Text.infix_append_cons_iff (by decide) hnan, ShowsNoNumber, ShowsNoNumber]
  tauto

theorem not_showsNoNumber {t : Text} (h : ∀ c ∈ t, c ≠ 'i' ∧ c ≠ 'N') : ¬ShowsNoNumber t := by
  rintro (hinf | hnan)
  · exact (h 'i' (hinf.subset (by decide))).1 rfl
  · exact (h 'N' (hnan.subset (by decide))).2 rfl

/-- A line shows what its label and its value show. -/
theorem showsNoNumber_line_append_iff (label : String) (value rest : Text) :
    ShowsNoNumber (Labelled.line label value ++ rest) ↔
      ShowsNoNumber label.toList ∨ ShowsNoNumber value ∨ ShowsNoNumber rest := by
  have hline : Labelled.line label value ++ rest =
      label.toList ++ ':' :: ([] ++ ' ' :: (value ++ '\n' :: rest)) := by
    simp [Labelled.line]
  have hempty : ¬ShowsNoNumber [] := by decide
  rw [hline, showsNoNumber_append_cons_iff (by decide), showsNoNumber_append_cons_iff (by decide),
    showsNoNumber_append_cons_iff (by decide)]
  tauto

/-! ## Values in lines -/

theorem ne_of_isDigit {c : Char} (h : Numeral.isDigit c = true) : c ≠ 'i' ∧ c ≠ 'N' := by
  constructor <;>
    · rintro rfl
      revert h
      decide

theorem not_showsNoNumber_ofNat (n : Nat) : ¬ShowsNoNumber (Numeral.ofNat n) :=
  not_showsNoNumber fun c hc => ne_of_isDigit ((Numeral.isDigits_ofNat n).2 c hc)

theorem not_showsNoNumber_ofCounter (n : Counter) : ¬ShowsNoNumber (Numeral.ofCounter n) := by
  refine not_showsNoNumber fun c hc => ?_
  rw [Numeral.ofCounter, Numeral.ofInt] at hc
  split_ifs at hc
  · rcases List.mem_cons.1 hc with rfl | hc
    · decide
    · exact ne_of_isDigit ((Numeral.isDigits_ofNat _).2 c hc)
  · exact ne_of_isDigit ((Numeral.isDigits_ofNat _).2 c hc)

theorem ne_of_mem_placeTwo {n : Nat} {c : Char} (h : c ∈ Decimal.placeTwo n) :
    c ≠ 'i' ∧ c ≠ 'N' := by
  rw [Decimal.placeTwo, List.mem_append, List.mem_cons, List.mem_cons, List.mem_singleton] at h
  rcases h with hc | rfl | rfl | rfl
  · exact ne_of_isDigit ((Numeral.isDigits_ofNat _).2 c hc)
  · decide
  · exact ne_of_isDigit (Numeral.isDigit_digitChar (Nat.mod_lt _ (by decide)))
  · exact ne_of_isDigit (Numeral.isDigit_digitChar (Nat.mod_lt _ (by decide)))

/-- A float with two places shows no number just if it is not finite. -/
theorem showsNoNumber_twoPlaces_iff (x : Float) :
    ShowsNoNumber (Decimal.twoPlaces x) ↔ ¬x.isFinite = true := by
  have hplaces (n : Nat) : ¬ShowsNoNumber (Decimal.placeTwo n) :=
    not_showsNoNumber fun c hc => ne_of_mem_placeTwo hc
  have hminus (n : Nat) : ¬ShowsNoNumber ('-' :: Decimal.placeTwo n) :=
    not_showsNoNumber fun c hc => by
      rcases List.mem_cons.1 hc with rfl | hc
      · decide
      · exact ne_of_mem_placeTwo hc
  rw [Binary64.isFinite_iff, Decimal.twoPlaces]
  dsimp only
  split_ifs with hnan hneg hinf hinf
  · exact iff_of_true (by decide) (by omega)
  · exact iff_of_true (by decide) (by omega)
  · exact iff_of_false (hminus _) (by omega)
  · exact iff_of_true (by decide) (by omega)
  · exact iff_of_false (hplaces _) (by omega)

/-! ## Values in documents -/

namespace Json

/-- A member of a record by its name. -/
def Tree.member? (name : String) : Tree → Option Tree
  | record members => (members.find? fun m => m.1 = name.toList).map Prod.snd
  | _ => none

/-- A record in which a member says nothing. -/
def Tree.HasNull : Tree → Prop
  | record members => ∃ m ∈ members, m.2 = null
  | _ => False

theorem treeMembers_eq_map (members : List (Text × Json)) :
    treeMembers members = members.map fun m => (m.1, m.2.tree) := by
  induction members with
  | nil => rfl
  | cons m members ih => rw [treeMembers, ih, List.map_cons]

theorem hasNull_record_iff (members : List (Text × Json)) :
    (record members).tree.HasNull ↔ ∃ m ∈ members, m.2.tree = .null := by
  rw [tree, treeMembers_eq_map]
  simp [Tree.HasNull]

theorem tree_integer_ne_null (n : Int) : (integer n).tree ≠ .null := by
  rw [tree]
  exact Tree.noConfusion

theorem tree_number_eq_null_iff (x : Float) : (number x).tree = .null ↔ ¬x.isFinite = true := by
  rw [tree, ← Decimal.isSome_token?_iff x]
  cases Decimal.token? x <;> simp

end Json

end ReportTally
