import ReportTally.Payload
import ReportTally.Proofs.Number.Digits
import ReportTally.Proofs.Text.Cuts

/-!
# Integer payloads

The payload of a marker line is the trimmed text of one segment of it, which starts after the first
colon and ends before the next one or with the line (`payload_eq_ok_iff`). A line has no payload just
if it has no colon (`payload_eq_error_iff`).

A counter is read from the literals of its value and from no other text, however many digits they
have (`Numeral.counter?_eq_some_iff`). `integer_of_line` says what comes of any line.
-/

namespace ReportTally

/-! ## Counters -/

theorem Counter.ofInt?_toInt (n : Counter) : ofInt? n.toInt = some n := by
  rw [ofInt?, if_pos ⟨n.least_le_toInt, n.toInt_le_greatest⟩, Int64.ofInt_toInt]

theorem Counter.exists_toInt_eq_iff {n : Int} :
    (∃ c : Counter, c.toInt = n) ↔ -2 ^ 63 ≤ n ∧ n ≤ 2 ^ 63 - 1 := by
  constructor
  · rintro ⟨c, rfl⟩
    have hlow := c.least_le_toInt
    have hhigh := c.toInt_le_greatest
    unfold least at hlow
    unfold greatest at hhigh
    omega
  · rintro ⟨hlow, hhigh⟩
    exact ⟨Int64.ofInt n, Int64.toInt_ofInt_of_le hlow (by omega)⟩

theorem Counter.ofInt?_eq_some_iff {n : Int} {c : Counter} : ofInt? n = some c ↔ c.toInt = n := by
  constructor
  · intro h
    obtain ⟨⟨hlow, hhigh⟩, hc⟩ := Option.ite_none_right_eq_some.1 h
    unfold least at hlow
    unfold greatest at hhigh
    rw [← Option.some_inj.1 hc, Int64.toInt_ofInt_of_le (by omega) (by omega)]
  · rintro rfl
    exact ofInt?_toInt c

/-- A counter is read from the literals of its value. -/
theorem Numeral.counter?_eq_some_iff {t : Text} {c : Counter} :
    counter? t = some c ↔ IsInteger t c.toInt := by
  rw [counter?, Option.bind_eq_some_iff]
  simp only [signed?_eq_some_iff, Counter.ofInt?_eq_some_iff]
  constructor
  · rintro ⟨n, hn, rfl⟩
    exact hn
  · intro h
    exact ⟨_, h, rfl⟩

namespace Payload

open Numeral (IsInteger)

variable {marker line value label segment : Text}

/-! ## Segments -/

/-- The text stands between the first colon of the line and the next one, or the end of the line. -/
def IsSegment (segment line : Text) : Prop :=
  ∃ label rest, line = label ++ ':' :: (segment ++ rest) ∧ ':' ∉ label ∧ ':' ∉ segment ∧
    (rest = [] ∨ ∃ tail, rest = ':' :: tail)

theorem isSegment_iff : IsSegment segment line ↔
    ∃ rest, Text.after? ':' line = some rest ∧ Text.before ':' rest = segment := by
  constructor
  · rintro ⟨label, rest, rfl, hlabel, hsegment, rfl | ⟨tail, rfl⟩⟩
    · refine ⟨_, Text.after?_append_cons hlabel _, ?_⟩
      rw [List.append_nil, Text.before_of_notMem hsegment]
    · exact ⟨_, Text.after?_append_cons hlabel _, Text.before_append_cons hsegment tail⟩
  · rintro ⟨rest, hrest, rfl⟩
    obtain ⟨label, rfl, hlabel⟩ := Text.after?_eq_some_iff.1 hrest
    by_cases hmem : ':' ∈ rest
    · obtain ⟨a, b, rfl, ha⟩ := List.eq_append_cons_of_mem hmem
      rw [Text.before_append_cons ha]
      exact ⟨label, ':' :: b, rfl, hlabel, ha, Or.inr ⟨b, rfl⟩⟩
    · rw [Text.before_of_notMem hmem]
      exact ⟨label, [], by rw [List.append_nil], hlabel, hmem, Or.inl rfl⟩

/-- A payload is a trimmed segment. -/
theorem payload_eq_ok_iff : payload marker line = .ok value ↔
    ∃ segment, IsSegment segment line ∧ value = Text.trim segment := by
  simp only [payload, isSegment_iff]
  cases Text.after? ':' line with
  | none => simp
  | some rest => simp [eq_comm]

/-- Only a line without a colon has no payload. -/
theorem payload_eq_error_iff {e : Flaw} : payload marker line = .error e ↔
    ':' ∉ line ∧ e = .noColon marker line := by
  rw [← Text.after?_eq_none_iff, payload]
  cases Text.after? ':' line with
  | none => simp [eq_comm]
  | some rest => simp

/-- What follows a second colon is not read. -/
theorem payload_append_cons (hlabel : ':' ∉ label) (hsegment : ':' ∉ segment)
    (marker tail : Text) : payload marker (label ++ ':' :: (segment ++ ':' :: tail)) =
      payload marker (label ++ ':' :: segment) := by
  rw [payload, payload, Text.after?_append_cons hlabel, Text.after?_append_cons hlabel]
  dsimp only
  rw [Text.before_append_cons hsegment, Text.before_of_notMem hsegment]

/-! ## Integers -/

theorem integer_eq_elim (h : payload marker line = .ok value) : integer marker line =
    (Numeral.counter? value).elim (.error (.notInteger marker value)) .ok := by
  rw [integer, h]
  dsimp only [bind, Except.bind]
  cases Numeral.counter? value <;> rfl

theorem integer_of_payload {n : Counter} (hpayload : payload marker line = .ok value)
    (hvalue : Numeral.counter? value = some n) : integer marker line = .ok n := by
  rw [integer_eq_elim hpayload, hvalue, Option.elim_some]

theorem integer_eq_ok_iff (h : payload marker line = .ok value) {c : Counter} :
    integer marker line = .ok c ↔ IsInteger value c.toInt := by
  rw [integer_eq_elim h, ← Numeral.counter?_eq_some_iff]
  cases Numeral.counter? value <;> simp

/-- Integers are read within the range of 64 bits. -/
theorem exists_integer_eq_ok_iff (h : payload marker line = .ok value) {n : Int} :
    (∃ c : Counter, c.toInt = n ∧ integer marker line = .ok c) ↔
      IsInteger value n ∧ -2 ^ 63 ≤ n ∧ n ≤ 2 ^ 63 - 1 := by
  simp only [integer_eq_ok_iff h]
  constructor
  · rintro ⟨c, rfl, hc⟩
    exact ⟨hc, Counter.exists_toInt_eq_iff.1 ⟨c, rfl⟩⟩
  · rintro ⟨hn, hrange⟩
    obtain ⟨c, rfl⟩ := Counter.exists_toInt_eq_iff.2 hrange
    exact ⟨c, rfl, hn⟩

/-- Any other payload is refused. -/
theorem integer_eq_error (h : payload marker line = .ok value)
    (hno : ¬∃ n : Int, IsInteger value n ∧ -2 ^ 63 ≤ n ∧ n ≤ 2 ^ 63 - 1) :
    integer marker line = .error (.notInteger marker value) := by
  cases hread : Numeral.counter? value with
  | none => rw [integer_eq_elim h, hread, Option.elim_none]
  | some c =>
    exact absurd ⟨c.toInt, (exists_integer_eq_ok_iff h).1 ⟨c, rfl, integer_of_payload h hread⟩⟩ hno

/-- A line without a colon is refused as such. The payload of any other line is the text between its
first colon and the next one, or the end of the line, without the blanks at its ends. It is read as
an integer just if it is a literal of that integer, at least one digit after at most one sign, and
the integer is in the range of 64 bits; every other payload is refused, and named. What follows a
second colon has no influence. -/
theorem integer_of_line (marker line : Text) :
    (∀ e, payload marker line = .error e ↔ ':' ∉ line ∧ e = .noColon marker line) ∧
    (∀ value, payload marker line = .ok value ↔
      ∃ segment, IsSegment segment line ∧ value = Text.trim segment) ∧
    (':' ∉ line → integer marker line = .error (.noColon marker line)) ∧
    (∀ segment, IsSegment segment line →
      (∀ n : Int, (∃ c : Counter, c.toInt = n ∧ integer marker line = .ok c) ↔
        IsInteger (Text.trim segment) n ∧ -2 ^ 63 ≤ n ∧ n ≤ 2 ^ 63 - 1) ∧
      ((¬∃ n : Int, IsInteger (Text.trim segment) n ∧ -2 ^ 63 ≤ n ∧ n ≤ 2 ^ 63 - 1) →
        integer marker line = .error (.notInteger marker (Text.trim segment)))) ∧
    ∀ label segment tail, ':' ∉ label → ':' ∉ segment →
      line = label ++ ':' :: (segment ++ ':' :: tail) →
      payload marker line = payload marker (label ++ ':' :: segment) ∧
        integer marker line = integer marker (label ++ ':' :: segment) := by
  refine ⟨fun e => payload_eq_error_iff, fun value => payload_eq_ok_iff, fun h => ?_,
    fun segment h => ?_, ?_⟩
  · rw [integer, payload_eq_error_iff.2 ⟨h, rfl⟩]
    rfl
  · have hpayload : payload marker line = .ok (Text.trim segment) :=
      payload_eq_ok_iff.2 ⟨segment, h, rfl⟩
    exact ⟨fun n => exists_integer_eq_ok_iff hpayload, integer_eq_error hpayload⟩
  · rintro label segment tail hlabel hsegment rfl
    have hsame := payload_append_cons hlabel hsegment marker tail
    exact ⟨hsame, by rw [integer, integer, hsame]⟩

/-- Zeros in front do not count, and one more than the greatest counter is refused. -/
example : integer [] "Methods: +0009223372036854775807 : 1".toList = .ok Int64.maxValue ∧
    integer [] "Methods: 9223372036854775808".toList =
      .error (.notInteger [] "9223372036854775808".toList) :=
  ⟨rfl, rfl⟩

end Payload

end ReportTally
