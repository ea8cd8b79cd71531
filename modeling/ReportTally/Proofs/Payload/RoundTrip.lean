import ReportTally.Payload
import ReportTally.Proofs.Number.Literal
import ReportTally.Proofs.Payload.Integer
import ReportTally.Proofs.Text.Cuts
import ReportTally.Report.Json

/-!
# Numbers that a report writes are payloads

A number token has neither blanks nor colons (`isPlain_of_isNumber`), so after the colon of a marker
line it is the payload, with any blanks around it (`payload_of_isNumber`). The token of a finite
float is read as just that float, and the decimal form of a counter as that counter, wherever a
report has written it (`number_of_written`).
-/

namespace ReportTally

theorem Numeral.counter?_ofCounter (n : Counter) : counter? (ofCounter n) = some n := by
  rw [counter?, ofCounter, signed?_ofInt, Option.bind_some, Counter.ofInt?_toInt]

namespace Payload

open Json (IsNumber IsUnsigned)

variable {label token s t : Text}

/-! ## Number tokens -/

/-- The character neither is trimmed nor ends a payload. -/
def IsPlain (c : Char) : Prop :=
  Text.isBlank c = false ∧ c ≠ ':'

theorem isPlain_of_isDigit {c : Char} (h : Numeral.isDigit c = true) : IsPlain c := by
  obtain ⟨hlow, hhigh⟩ := Numeral.toNat_of_isDigit h
  refine ⟨?_, ?_⟩
  · simp [Text.isBlank]
    omega
  · rintro rfl
    exact absurd hhigh (by decide)

theorem isPlain_of_isUnsigned (h : IsUnsigned token) : ∀ c ∈ token, IsPlain c := by
  obtain ⟨whole, fraction, exponent, rfl, hwhole, hfraction, hexponent⟩ := h
  have hdigits {ds : Text} (hds : Numeral.IsDigits ds) : ∀ c ∈ ds, IsPlain c :=
    fun c hc => isPlain_of_isDigit (hds.2 c hc)
  intro c hc
  rcases List.mem_append.1 hc with hc | hc
  · exact hdigits hwhole.isDigits c hc
  rcases List.mem_append.1 hc with hc | hc
  · rcases hfraction with rfl | ⟨ds, rfl, hds⟩
    · cases hc
    · rcases List.mem_cons.1 hc with rfl | hc
      · exact ⟨rfl, by decide⟩
      · exact hdigits hds c hc
  · rcases hexponent with rfl | ⟨e, sign, ds, rfl, he, hsign, hds⟩
    · cases hc
    · rcases List.mem_cons.1 hc with rfl | hc
      · rcases he with rfl | rfl <;> exact ⟨rfl, by decide⟩
      rcases List.mem_append.1 hc with hc | hc
      · rcases hsign with rfl | rfl | rfl
        · cases hc
        all_goals
          rw [List.mem_singleton.1 hc]
          exact ⟨rfl, by decide⟩
      · exact hdigits hds c hc

/-- A number token has neither blanks nor colons. -/
theorem isPlain_of_isNumber (h : IsNumber token) : ∀ c ∈ token, IsPlain c := by
  rcases h with h | ⟨t, rfl, h⟩
  · exact isPlain_of_isUnsigned h
  · intro c hc
    rcases List.mem_cons.1 hc with rfl | hc
    · exact ⟨rfl, by decide⟩
    · exact isPlain_of_isUnsigned h c hc

/-- A number token is the payload of a marker line, with any blanks around it. -/
theorem payload_of_isNumber (marker : Text) (hlabel : ':' ∉ label)
    (hs : ∀ c ∈ s, Text.isBlank c = true) (htoken : IsNumber token)
    (ht : ∀ c ∈ t, Text.isBlank c = true) :
    payload marker (label ++ ':' :: (s ++ (token ++ t))) = .ok token := by
  have hplain := isPlain_of_isNumber htoken
  have hcolon : ':' ∉ s ++ (token ++ t) := by
    simp only [List.mem_append, not_or]
    exact ⟨fun h => absurd (hs _ h) (by decide), fun h => (hplain _ h).2 rfl,
      fun h => absurd (ht _ h) (by decide)⟩
  rw [payload, Text.after?_append_cons hlabel]
  dsimp only
  rw [Text.before_of_notMem hcolon, Text.trim_append_append hs (fun c hc => (hplain c hc).1) ht]

theorem number_of_payload {marker line value : Text} {x : Float}
    (hpayload : payload marker line = .ok value) (hvalue : Decimal.finite? value = some x) :
    number marker line = .ok x := by
  rw [number, hpayload]
  dsimp only [bind, Except.bind]
  rw [hvalue]

/-! ## Round trips -/

/-- Numbers survive being written and read. What a JSON document writes for a finite float is, as
the payload of a marker line, read as the same float, with zeros of both signs and subnormal numbers
included. The decimal form of a counter, which a JSON document writes too, is read as the counter
with any blanks around it. -/
theorem number_of_written (marker : Text) (hlabel : ':' ∉ label) :
    (∀ (x : Float) (level : Nat), x.isFinite = true →
      number marker (label ++ ": ".toList ++ Json.write level (.number x)) = .ok x) ∧
    ∀ (n : Counter) (level : Nat) (s t : Text), (∀ c ∈ s, Text.isBlank c = true) →
      (∀ c ∈ t, Text.isBlank c = true) →
      Json.write level (.integer n.toInt) = Numeral.ofCounter n ∧
        integer marker (label ++ ':' :: (s ++ (Numeral.ofCounter n ++ t))) = .ok n := by
  refine ⟨fun x level hx => ?_, fun n level s t hs ht => ⟨by rw [Json.write]; rfl, ?_⟩⟩
  · obtain ⟨token, htoken, hread⟩ := Decimal.exists_token? hx
    have hblank : ∀ c ∈ [' '], Text.isBlank c = true := List.forall_mem_singleton.2 rfl
    have hpayload := payload_of_isNumber marker hlabel hblank (Json.isNumber_of_token? htoken)
      (List.forall_mem_nil _)
    rw [List.append_nil] at hpayload
    have hline : label ++ ": ".toList ++ Json.write level (.number x) =
        label ++ ':' :: ([' '] ++ token) := by
      rw [Json.write, htoken, Option.getD_some, List.append_assoc]
      rfl
    rw [hline]
    exact number_of_payload hpayload hread
  · have hpayload := payload_of_isNumber marker hlabel hs (Json.isNumber_ofInt n.toInt) ht
    exact integer_of_payload hpayload (Numeral.counter?_ofCounter n)

/-- The least subnormal number below zero, zero with a minus sign, and the least counter. -/
theorem number_of_extremes :
    number [] "!Union columns percentage count cumulative: -5e-324".toList =
      .ok (Binary64.ofSign true 1) ∧
    number [] "!Union columns percentage count cumulative: -0.0".toList =
      .ok (Binary64.ofSign true 0) ∧
    integer [] "Union unused:\t -9223372036854775808\r\n".toList =
      .ok (Int64.ofInt Counter.least) := by
  have hlabel : ':' ∉ "!Union columns percentage count cumulative".toList := by decide
  have hlabel' : ':' ∉ "Union unused".toList := by decide
  obtain ⟨hnumber, -⟩ := number_of_written [] hlabel
  obtain ⟨-, hinteger⟩ := number_of_written [] hlabel'
  have hsubnormal := hnumber (Binary64.ofSign true 1) 0 (by decide +kernel)
  have hzero := hnumber (Binary64.ofSign true 0) 0 (by decide +kernel)
  have hleast := (hinteger (Int64.ofInt Counter.least) 0 ['\t', ' '] ['\r', '\n']
    (List.forall_mem_cons.2 ⟨rfl, List.forall_mem_singleton.2 rfl⟩)
    (List.forall_mem_cons.2 ⟨rfl, List.forall_mem_singleton.2 rfl⟩)).2
  rw [Json.write] at hsubnormal hzero
  have htoken : Decimal.token? (Binary64.ofSign true 1) = some "-5e-324".toList := by
    decide +kernel
  have htoken' : Decimal.token? (Binary64.ofSign true 0) = some "-0.0".toList := by
    decide +kernel
  rw [htoken] at hsubnormal
  rw [htoken'] at hzero
  exact ⟨hsubnormal, hzero, hleast⟩

end Payload

end ReportTally
