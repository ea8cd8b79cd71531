import Mathlib
import ReportTally.Proofs.Number.Words

/-!
# Floats of both signs

A float is a sign and a magnitude word (`toNat_toBits`), and unpacking its bits gives just these
(`unpack_toModel`). It is finite if its word is below that of infinity (`isFinite_iff`), and then no
other float has its sign and its word (`ofSign_magnitude`). What the bits of a float say when an
operation packs them is its sign and its word (`of_toModel_eq_pack`).

`signedValue` is the exact value of a finite float, and finite floats are ordered as their exact
values are (`le_iff_signedValue_le`).
-/

namespace ReportTally.Binary64

open Float.Model (UnpackedFloat Format)
open Float.Model.UnpackedFloat

variable {x : Float}

/-- The sign of a float. -/
def sign (x : Float) : Sign :=
  if isNegative x then .negative else .positive

theorem magnitude_lt (x : Float) : magnitude x < 2 ^ 63 := by
  have hsign : signBit = 2 ^ 63 := by decide
  rw [magnitude, hsign]
  exact Nat.mod_lt _ (by norm_num)

theorem toNat_toBitVec_sign (x : Float) :
    (sign x).toBitVec.toNat = if isNegative x then 1 else 0 := by
  unfold sign
  split_ifs <;> rfl

/-- The bits of a float are its sign and its magnitude word. -/
theorem toNat_toBits (x : Float) :
    x.toBits.toNat = (sign x).toBitVec.toNat * 2 ^ 63 + magnitude x := by
  have hsign : signBit = 2 ^ 63 := by decide
  have hlt : x.toBits.toNat < 2 ^ 64 := x.toBits.toNat_lt
  rw [toNat_toBitVec_sign, isNegative, magnitude, hsign]
  simp only [decide_eq_true_eq]
  split_ifs <;> omega

theorem unpack_toModel (h : magnitude x ≤ infinity) :
    x.toModel.unpack = unpacked (sign x) (magnitude x) :=
  unpack_eq h (toNat_toBits x)

theorem unpack_of_infinity_lt (h : infinity < magnitude x) : x.toModel.unpack = .notANumber := by
  have hlt := magnitude_lt x
  have hbits := toNat_toBits x
  have hs := (sign x).toBitVec.isLt
  rw [infinity_eq] at h
  have hones : (-1#_ : BitVec Format.binary64.exponentBits).toNat = 2047 := by decide
  have hexp : @unpackExponent Format.binary64 x.toBits.toBitVec = -1#_ := by
    rw [← BitVec.toNat_inj, toNat_unpackExponent, UInt64.toNat_toBitVec, hones]
    omega
  have hmant : @unpackMantissa Format.binary64 x.toBits.toBitVec ≠ 0#_ := by
    rw [Ne, ← BitVec.toNat_inj, toNat_unpackMantissa, UInt64.toNat_toBitVec, BitVec.toNat_zero]
    omega
  change UnpackedFloat.unpack Format.binary64 x.toBits.toBitVec = .notANumber
  unfold UnpackedFloat.unpack
  rw [if_pos hexp, if_neg hmant]

theorem isFinite_unpacked {s : Sign} {word : Nat} :
    (unpacked s word).isFinite = true ↔ word < infinity := by
  have hinf : 0 < infinity := by decide
  unfold unpacked
  split_ifs with hpos hlt
  · simpa [UnpackedFloat.isFinite] using hlt
  · simpa [UnpackedFloat.isFinite] using hlt
  · simp [UnpackedFloat.isFinite]
    omega

/-- A float is finite if its word is below that of infinity. -/
theorem isFinite_iff (x : Float) : x.isFinite = true ↔ magnitude x < infinity := by
  change x.toModel.unpack.isFinite = true ↔ _
  rcases le_or_gt (magnitude x) infinity with h | h
  · rw [unpack_toModel h, isFinite_unpacked]
  · rw [unpack_of_infinity_lt h]
    simpa [UnpackedFloat.isFinite] using h.le

/-- A finite float is the one with its sign and its magnitude word. -/
theorem ofSign_magnitude (h : magnitude x ≤ infinity) :
    ofSign (isNegative x) (magnitude x) = x := by
  have hbits : (if isNegative x then signBit + magnitude x else magnitude x) =
      x.toBits.toNat := by
    have hsign : signBit = 2 ^ 63 := by decide
    rw [toNat_toBits, toNat_toBitVec_sign, hsign]
    split_ifs <;> omega
  have hpack : UnpackedFloat.pack Format.binary64 x.toModel.unpack = x.toBits.toBitVec := by
    refine BitVec.eq_of_toNat_eq ?_
    rw [unpack_toModel h, toNat_pack_unpacked _ h, UInt64.toNat_toBitVec, toNat_toBits]
  have hmodel : Float.Model.ofBits x.toBits = x.toModel := by
    change Float.Model.pack x.toModel.unpack = x.toModel
    simp only [Float.Model.pack, hpack]
    rfl
  rw [ofSign, hbits, UInt64.ofNat_toNat]
  exact congrArg Float.ofModel hmodel

/-- The sign and the word of a float, by the bits that have been packed for it. -/
theorem of_toModel_eq_pack {f : UnpackedFloat} {s : Sign} {word : Nat}
    (hx : x.toModel = Float.Model.pack f) (hword : word < 2 ^ 63)
    (hf : (UnpackedFloat.pack Format.binary64 f).toNat = s.toBitVec.toNat * 2 ^ 63 + word) :
    sign x = s ∧ magnitude x = word := by
  have hbits : x.toBits.toBitVec = UnpackedFloat.pack Format.binary64 f := by
    change x.toModel.toBits.toBitVec = _
    rw [hx]
    rfl
  have hx' := toNat_toBits x
  have hmag := magnitude_lt x
  rw [← UInt64.toNat_toBitVec, hbits, hf] at hx'
  have hs := s.toBitVec.isLt
  have hs' := (sign x).toBitVec.isLt
  refine ⟨?_, by omega⟩
  have hsame : s.toBitVec = (sign x).toBitVec := BitVec.eq_of_toNat_eq (by omega)
  rw [← Sign.ofBitVec_toBitVec (s := s), hsame, Sign.ofBitVec_toBitVec]

/-- What is packed for a finite float is finite. -/
theorem isFinite_of_pack {f : UnpackedFloat} (hx : x.toModel = Float.Model.pack f)
    (h : x.isFinite = true) : f.isFinite = true := by
  rw [isFinite_iff] at h
  cases f with
  | zero s => rfl
  | finite s m e hm => rfl
  | infinity s =>
    have hword := (of_toModel_eq_pack (s := s) hx (by decide : infinity < 2 ^ 63)
      (by cases s <;> rfl)).2
    omega
  | notANumber =>
    have hword := (of_toModel_eq_pack (s := .positive) hx (by decide : noNumber < 2 ^ 63) rfl).2
    have hlt : infinity < noNumber := by decide
    omega

/-- The exact value of a sign and a magnitude word. -/
def signed (s : Sign) (word : Nat) : ℚ :=
  match s with
  | .negative => -value word
  | .positive => value word

/-- The exact value of a finite float. -/
def signedValue (x : Float) : ℚ :=
  signed (sign x) (magnitude x)

theorem value_zero : value 0 = 0 := by
  rw [value, scale_of_lt (by norm_num), Nat.cast_zero, zero_mul]

theorem signed_zero (s : Sign) : signed s 0 = 0 := by
  cases s <;> simp [signed, value_zero]

theorem abs_signed (s : Sign) (word : Nat) : |signed s word| = value word := by
  have hnonneg : 0 ≤ value word := by
    unfold value
    positivity
  cases s <;> simp [signed, abs_of_nonneg hnonneg]

/-! ## Order -/

/-- Finite floats are compared by their exact values, so the zeros of both signs are equal. -/
theorem compare_unpacked_unpacked (s t : Sign) {a b : Nat} (ha : a < infinity) (hb : b < infinity) :
    (unpacked s a).compare (unpacked t b) = some (cmp (signed s a) (signed t b)) := by
  have hzero (s : Sign) : unpacked s 0 = .zero s := rfl
  rcases Nat.eq_zero_or_pos a with rfl | hpos <;> rcases Nat.eq_zero_or_pos b with rfl | hpos'
  · rw [hzero, hzero, signed_zero, signed_zero, cmp_self_eq_eq]
    rfl
  · have hvalue := value_pos hpos'
    rw [hzero, unpacked_of_pos hpos' hb, signed_zero]
    cases t with
    | negative => exact congrArg some ((cmp_eq_gt_iff _ _).2 (neg_lt_zero.2 hvalue)).symm
    | positive => exact congrArg some ((cmp_eq_lt_iff _ _).2 hvalue).symm
  · have hvalue := value_pos hpos
    rw [hzero, unpacked_of_pos hpos ha, signed_zero]
    cases s with
    | negative => exact congrArg some ((cmp_eq_lt_iff _ _).2 (neg_lt_zero.2 hvalue)).symm
    | positive => exact congrArg some ((cmp_eq_gt_iff _ _).2 hvalue).symm
  · have hvalue := value_pos hpos
    have hvalue' := value_pos hpos'
    rw [unpacked_of_pos hpos ha, unpacked_of_pos hpos' hb]
    cases s <;> cases t <;> unfold UnpackedFloat.compare signed <;> dsimp only
    · rw [compare_scale, ← cmp_eq_compare, cmp_swap]
      exact congrArg some (strictMono_value.neg.cmp_map_eq a b).symm
    · rw [(cmp_eq_lt_iff _ _).2 (by linarith)]
    · rw [(cmp_eq_gt_iff _ _).2 (by linarith)]
    · rw [compare_scale, ← cmp_eq_compare, strictMono_value.cmp_map_eq]

theorem le_iff_signedValue_le {x y : Float} (hx : x.isFinite = true) (hy : y.isFinite = true) :
    x ≤ y ↔ signedValue x ≤ signedValue y := by
  rw [isFinite_iff] at hx hy
  change decide (x.toModel.unpack.le y.toModel.unpack = true) = true ↔ _
  rw [UnpackedFloat.le, unpack_toModel hx.le, unpack_toModel hy.le,
    compare_unpacked_unpacked _ _ hx hy, decide_eq_true_eq, cmp_eq_compare, Option.any_some,
    ← Ordering.ne_gt_iff_isLE]
  exact compare_le_iff_le

end ReportTally.Binary64
