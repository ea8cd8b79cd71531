import ReportTally.Passthrough
import ReportTally.Proofs.Fold
import ReportTally.Proofs.Text.Search

/-!
# Rows of passthrough reports

A row is `Ignored`, `Generated` or `Counted`, by the number of its fields and by its first field
alone. Only the fields 1 to 5 of a counted row are read, and `RowFlaw` says which of them is the
first that is missing or no integer. `Row.ofText` follows these definitions
(`Row.ofText_of_ignored`, `Row.ofText_of_generated`, `Row.ofText_of_counted`), so it fails exactly
for the flawed rows (`Row.ofText_eq_error_iff`).

The rows of a report are the lines after its first banner that are not empty (`hasRows_rows`). A
report with flawed rows fails with the first one (`Tally.addFile_eq_error_iff`).
-/

namespace ReportTally.Passthrough

variable {names : List Text} {row : Text}

/-! ## Rows of a report -/

/-- These are the lines after the first one with the banner, without the empty ones. Without a
banner there are none. -/
def HasRows (t : Text) (rs : List Text) : Prop :=
  (∃ pre line post, Text.lines t = pre ++ line :: post ∧ (∀ l ∈ pre, ¬banner <:+: l) ∧
      banner <:+: line ∧ rs = post.filter (· ≠ [])) ∨
    (∀ l ∈ Text.lines t, ¬banner <:+: l) ∧ rs = []

theorem hasRows_rows (t : Text) : HasRows t (rows t) := by
  cases h : (Text.lines t).dropWhile (!Text.occurs banner ·) with
  | nil =>
    refine Or.inr ⟨Text.dropWhile_not_occurs_eq_nil_iff.1 h, ?_⟩
    rw [rows, h]
    rfl
  | cons line post =>
    obtain ⟨pre, hlines, hpre, hline⟩ := Text.dropWhile_not_occurs_eq_cons_iff.1 h
    refine Or.inl ⟨pre, line, post, hlines, hpre, hline, ?_⟩
    rw [rows, h, List.drop_one, List.tail_cons]
    refine List.filter_congr fun l _ => ?_
    cases l <;> rfl

/-! ## Fields -/

/-- The counter in a field, if the field is there and holds an integer in range, up to blanks. -/
def counterAt? (row : Text) (index : Nat) : Option Counter :=
  (Text.fields '+' row)[index]?.bind fun value => Numeral.counter? (Text.trim value)

/-- A field that is missing, or that holds no integer in range. -/
def FieldFlaw (row : Text) (index : Nat) (e : Flaw) : Prop :=
  (Text.fields '+' row)[index]? = none ∧ e = .missingField index row ∨
    ∃ value, (Text.fields '+' row)[index]? = some value ∧
      Numeral.counter? (Text.trim value) = none ∧ e = .notIntegerField index value row

theorem field_eq_error_iff (row : Text) (index : Nat) (e : Flaw) :
    field row (Text.fields '+' row) index = .error e ↔ FieldFlaw row index e := by
  unfold field FieldFlaw
  cases (Text.fields '+' row)[index]? with
  | none => simp [eq_comm]
  | some value => cases h : Numeral.counter? (Text.trim value) <;> simp [h, eq_comm]

theorem toOption_field (row : Text) (index : Nat) :
    (field row (Text.fields '+' row) index).toOption = counterAt? row index := by
  unfold field counterAt?
  cases (Text.fields '+' row)[index]? with
  | none => rfl
  | some value => cases h : Numeral.counter? (Text.trim value) <;> simp [h, Except.toOption]

/-- The counts in the fields from 1 to 5. -/
def counts? (row : Text) : Option Counts := do
  return ⟨← counterAt? row 1, ← counterAt? row 2, ← counterAt? row 3, ← counterAt? row 4,
    ← counterAt? row 5⟩

/-- The counts are read up to the first field that cannot be read. -/
theorem Counts.ofFields_eq_error_iff (e : Flaw) :
    Counts.ofFields row (Text.fields '+' row) = .error e ↔
      FirstError (FieldFlaw row) [1, 2, 3, 4, 5] e := by
  have step := field_eq_error_iff row
  unfold Counts.ofFields
  refine bind_eq_error_iff (step 1) (fun _ _ => ?_) e
  refine bind_eq_error_iff (step 2) fun _ _ => ?_
  refine bind_eq_error_iff (step 3) fun _ _ => ?_
  refine bind_eq_error_iff (step 4) fun _ _ => ?_
  refine bind_eq_error_iff (step 5) fun _ _ e => ?_
  exact ⟨nofun, fun h => (not_firstError_nil _ e h).elim⟩

theorem Counts.toOption_ofFields (row : Text) :
    (Counts.ofFields row (Text.fields '+' row)).toOption = counts? row := by
  have step := toOption_field row
  simp only [counts?, ← step, Counts.ofFields]
  cases field row (Text.fields '+' row) 1 <;> cases field row (Text.fields '+' row) 2 <;>
    cases field row (Text.fields '+' row) 3 <;> cases field row (Text.fields '+' row) 4 <;>
    cases field row (Text.fields '+' row) 5 <;> rfl

/-! ## Kinds of rows -/

/-- The row has at most two fields. -/
def Ignored (row : Text) : Prop :=
  (Text.fields '+' row).length ≤ 2

/-- The row is not ignored, and its first field contains a name of generated code. -/
def Generated (names : List Text) (row : Text) : Prop :=
  ¬Ignored row ∧ ∃ g ∈ names, g <:+: (Text.fields '+' row).headD []

/-- The row is neither ignored nor generated. -/
def Counted (names : List Text) (row : Text) : Prop :=
  ¬Ignored row ∧ ¬Generated names row

instance : DecidablePred Ignored := fun _ => inferInstanceAs (Decidable (_ ≤ _))

instance : DecidablePred (Generated names) := fun _ => inferInstanceAs (Decidable (_ ∧ _))

instance : DecidablePred (Counted names) := fun _ => inferInstanceAs (Decidable (_ ∧ _))

/-- The row is counted, and this is the flaw of its first field that cannot be read. -/
def RowFlaw (names : List Text) (row : Text) (e : Flaw) : Prop :=
  Counted names row ∧ FirstError (FieldFlaw row) [1, 2, 3, 4, 5] e

theorem Ignored.not_counted (h : Ignored row) : ¬Counted names row :=
  fun hc => hc.1 h

theorem Generated.not_counted (h : Generated names row) : ¬Counted names row :=
  fun hc => hc.2 h

/-- A row with more than two fields. -/
theorem fields_eq_of_not_ignored (h : ¬Ignored row) :
    ∃ name first second rest, Text.fields '+' row = name :: first :: second :: rest := by
  rw [Ignored] at h
  match hf : Text.fields '+' row with
  | name :: first :: second :: rest => exact ⟨name, first, second, rest, rfl⟩
  | [] | [_] | [_, _] => simp [hf] at h

theorem Row.ofText_of_ignored (h : Ignored row) : Row.ofText names row = .ok .ignored := by
  unfold Row.ofText
  split
  · next hf => simp [Ignored, hf] at h
  · rfl

theorem isGenerated_iff {name : Text} :
    isGenerated names name = true ↔ ∃ g ∈ names, g <:+: name := by
  simp [isGenerated, Text.occurs_iff]

/-- A generated row is recognised by its first field, and the other ones are not read. -/
theorem Row.ofText_of_generated (h : Generated names row) :
    Row.ofText names row = .ok .generated := by
  obtain ⟨hi, hg⟩ := h
  obtain ⟨name, first, second, rest, hf⟩ := fields_eq_of_not_ignored hi
  rw [hf, List.headD_cons] at hg
  simp only [Row.ofText, hf]
  rw [if_pos (isGenerated_iff.2 hg)]

theorem Row.ofText_of_counted (h : Counted names row) :
    Row.ofText names row = (Counts.ofFields row (Text.fields '+' row)).map .counted := by
  obtain ⟨name, first, second, rest, hf⟩ := fields_eq_of_not_ignored h.1
  have hg : ¬isGenerated names name = true := fun hg =>
    h.2 ⟨h.1, by rw [hf]; exact isGenerated_iff.1 hg⟩
  simp only [Row.ofText, hf]
  rw [if_neg hg]
  cases Counts.ofFields row (name :: first :: second :: rest) <;> rfl

/-- A row fails exactly if it is flawed. -/
theorem Row.ofText_eq_error_iff (row : Text) (e : Flaw) :
    Row.ofText names row = .error e ↔ RowFlaw names row e := by
  by_cases hc : Counted names row
  · rw [Row.ofText_of_counted hc, RowFlaw, ← Counts.ofFields_eq_error_iff]
    cases Counts.ofFields row (Text.fields '+' row) <;> simp [Except.map, hc]
  · have hno : ¬RowFlaw names row e := fun h => hc h.1
    by_cases hi : Ignored row
    · simp [Row.ofText_of_ignored hi, hno]
    · have hg : Generated names row := by
        by_contra hg
        exact hc ⟨hi, hg⟩
      simp [Row.ofText_of_generated hg, hno]

/-! ## Reports -/

/-- A report fails with the flaw of its first flawed row, whatever was read before it. -/
theorem Tally.addFile_eq_error_iff (t : Tally) (file contents : Text) (e : Flaw) :
    t.addFile names file contents = .error e ↔
      FirstError (RowFlaw names) (rows contents) e := by
  refine foldlM_eq_error_iff (fun t row e => ?_) _ _ e
  rw [← Row.ofText_eq_error_iff]
  cases Row.ofText names row <;> simp [bind, Except.bind, pure, Except.pure]

end ReportTally.Passthrough
