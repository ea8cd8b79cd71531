import Mathlib
import ReportTally.Proofs.Number.Rounding

/-!
# The bits of a float

Of the 64 bits of a float the highest one is its sign and the others are its magnitude word. The
operations on floats unpack their bits, compute with a multiple of a power of two, and pack it
again. Both ways agree with `Binary64.scale` (`unpack_eq`, `toNat_pack_finite`), so the bits say
which float it is (`eq_ofSign_of_bits`), and floats that are not negative are ordered as their
magnitude words are (`ofSign_lt_ofSign`).
-/

namespace ReportTally.Binary64

open Float.Model (UnpackedFloat Format)
open Float.Model.UnpackedFloat

variable {s : Sign} {word : Nat}

/-! ## Fields of the bits -/

theorem toNat_packComponents (s : Sign) (e : BitVec 11) (m : BitVec 52) :
    (packComponents Format.binary64 s e m).toNat =
      s.toBitVec.toNat * 2 ^ 63 + (e.toNat * 2 ^ 52 + m.toNat) := by
  have he := e.isLt
  have hm := m.isLt
  rw [packComponents, BitVec.toNat_append, BitVec.toNat_append, ← Nat.shiftLeft_add_eq_or_of_lt hm,
    ← Nat.shiftLeft_add_eq_or_of_lt he, Nat.shiftLeft_eq, Nat.shiftLeft_eq]
  ring

theorem toNat_unpackMantissa (b : BitVec 64) :
    (@unpackMantissa Format.binary64 b).toNat = b.toNat % 2 ^ 52 := by
  simp [unpackMantissa]

theorem toNat_unpackExponent (b : BitVec 64) :
    (@unpackExponent Format.binary64 b).toNat = b.toNat / 2 ^ 52 % 2 ^ 11 := by
  simp [unpackExponent, Nat.shiftRight_eq_div_pow]

theorem toNat_unpackSign (b : BitVec 64) :
    (@unpackSign Format.binary64 b).toNat = b.toNat / 2 ^ 63 := by
  have := b.isLt
  simp [unpackSign, Nat.shiftRight_eq_div_pow]
  omega

theorem toNat_one_append (m : BitVec 52) : (1#1 ++ m).toNat = 2 ^ 52 + m.toNat := by
  rw [BitVec.toNat_append, ← Nat.shiftLeft_add_eq_or_of_lt m.isLt]
  rfl

/-! ## Words -/

theorem infinity_eq : infinity = 2047 * 2 ^ 52 := by
  decide

theorem finite_congr {m m' : Nat} {e e' : Int} (hm : m = m') (he : e = e') (h : 0 < m)
    (h' : 0 < m') : UnpackedFloat.finite s m e h = .finite s m' e' h' := by
  subst hm he
  rfl

/-- What a sign and a magnitude word say. -/
def unpacked (s : Sign) (word : Nat) : UnpackedFloat :=
  if h : 0 < word then
    if word < infinity then .finite s (scale word).1 (scale word).2 (scale_pos h) else .infinity s
  else .zero s

theorem unpacked_of_pos (hw : 0 < word) (hw' : word < infinity) :
    unpacked s word = .finite s (scale word).1 (scale word).2 (scale_pos hw) := by
  rw [unpacked, dif_pos hw, if_pos hw']

/-- The bits of a sign and a magnitude word are read as just that. -/
theorem unpack_eq {b : BitVec 64} (hw : word ≤ infinity)
    (hb : b.toNat = s.toBitVec.toNat * 2 ^ 63 + word) :
    UnpackedFloat.unpack Format.binary64 b = unpacked s word := by
  have hs := s.toBitVec.isLt
  rw [infinity_eq] at hw
  have hmant : (@unpackMantissa Format.binary64 b).toNat = word % 2 ^ 52 := by
    rw [toNat_unpackMantissa]
    omega
  have hexp : (@unpackExponent Format.binary64 b).toNat = word / 2 ^ 52 := by
    rw [toNat_unpackExponent]
    omega
  have hsign : @unpackSign Format.binary64 b = s.toBitVec := by
    rw [← BitVec.toNat_inj, toNat_unpackSign]
    omega
  have hfull : @unpackExponent Format.binary64 b = -1#_ ↔ word = 2047 * 2 ^ 52 := by
    rw [← BitVec.toNat_inj, hexp]
    simp
    omega
  have hnone : @unpackExponent Format.binary64 b = 0#_ ↔ word < 2 ^ 52 := by
    rw [← BitVec.toNat_inj, hexp, BitVec.toNat_zero]
    omega
  have hzero : @unpackMantissa Format.binary64 b = 0#_ ↔ word % 2 ^ 52 = 0 := by
    rw [← BitVec.toNat_inj, hmant, BitVec.toNat_zero]
  have hbias : ((Format.binary64.exponentBias : Nat) : Int) = 1023 := rfl
  have hbits : ((Format.binary64.mantissaBitsWithoutImplicit : Nat) : Int) = 52 := rfl
  unfold UnpackedFloat.unpack unpacked
  simp only [hsign, Sign.ofBitVec_toBitVec, hexp, toNat_one_append, hmant, hfull, hnone, hzero, hbias,
    hbits, infinity_eq]
  rcases Nat.lt_or_ge word (2 ^ 52) with hlt | hge
  · rw [if_neg (by omega), if_pos hlt]
    rcases Nat.eq_zero_or_pos word with rfl | hpos
    · rfl
    · rw [dif_neg (by omega), dif_pos hpos, if_pos (by omega)]
      simp only [scale_of_lt hlt, leastExponent]
      exact finite_congr (by omega) (by omega) _ _
  · rw [if_neg (Nat.not_lt.2 hge), dif_pos (by omega)]
    rcases hw.lt_or_eq with hfin | heq
    · rw [if_neg hfin.ne, if_pos hfin]
      simp only [scale_of_le hge, leastExponent]
      exact finite_congr rfl (by omega) _ _
    · rw [if_pos heq, if_pos (by omega), if_neg (by omega)]

/-- The bits of a finite float, or those of infinity if its exponent is too large. -/
theorem toNat_pack_finite {m : Nat} {e : Int} (hm : 0 < m) (he : leastExponent ≤ e)
    (hlt : m < 2 ^ 53) (hnormal : e = leastExponent ∨ 2 ^ 52 ≤ m) :
    (UnpackedFloat.pack Format.binary64 (.finite s m e hm)).toNat =
      s.toBitVec.toNat * 2 ^ 63 + min ((e - leastExponent).toNat * hidden + m) infinity := by
  have hbias : ((Format.binary64.exponentBias : Nat) : Int) = 1023 := rfl
  have hbits : Format.binary64.mantissaBits = 53 := rfl
  have hlog : m.log2 + 1 = 53 ↔ 2 ^ 52 ≤ m := by
    rw [← Nat.le_log2 hm.ne']
    have := (Nat.log2_lt hm.ne').2 hlt
    omega
  rw [hidden_eq, infinity_eq]
  unfold leastExponent at he hnormal ⊢
  unfold UnpackedFloat.pack
  simp only [hbias, hbits, hlog]
  split_ifs with hbig hm'
  · rw [packedInfinity, toNat_packComponents]
    have : (e + 1074).toNat * 2 ^ 52 + m ≥ 2047 * 2 ^ 52 := by omega
    simp
    omega
  · rw [toNat_packComponents, BitVec.toNat_ofNat, BitVec.toNat_ofNat]
    omega
  · rw [toNat_packComponents, BitVec.toNat_ofNat, BitVec.toNat_ofNat]
    omega

theorem toNat_pack_unpacked (s : Sign) (hw : word ≤ infinity) :
    (UnpackedFloat.pack Format.binary64 (unpacked s word)).toNat =
      s.toBitVec.toNat * 2 ^ 63 + word := by
  unfold unpacked
  split_ifs with hpos hlt
  · obtain ⟨he, hm, hnormal, hword⟩ := scale_bounds word
    rw [toNat_pack_finite _ he hm hnormal, hword, min_eq_left hw]
  · obtain rfl : word = infinity := le_antisymm hw (not_lt.1 hlt)
    cases s <;> rfl
  · obtain rfl : word = 0 := by omega
    cases s <;> rfl

/-! ## Floats that are not negative -/

theorem toNat_toBitVec_ofNat (hw : word ≤ infinity) :
    (UInt64.ofNat word).toBitVec.toNat = Sign.positive.toBitVec.toNat * 2 ^ 63 + word := by
  have hinf := infinity_eq
  rw [UInt64.toNat_toBitVec, UInt64.toNat_ofNat']
  simp [Sign.toBitVec]
  omega

theorem toModel_ofSign (hw : word ≤ infinity) :
    (ofSign false word).toModel = Float.Model.pack (unpacked .positive word) := by
  rw [← unpack_eq hw (toNat_toBitVec_ofNat hw)]
  rfl

theorem unpack_ofSign (hw : word ≤ infinity) :
    (ofSign false word).toModel.unpack = unpacked .positive word := by
  rw [toModel_ofSign hw]
  exact unpack_eq hw (toNat_pack_unpacked _ hw)

/-- The bits of a float say which one it is. -/
theorem eq_ofSign_of_bits {x : Float} {f : UnpackedFloat} (hx : x.toModel = Float.Model.pack f)
    (hw : word ≤ infinity)
    (hf : (UnpackedFloat.pack Format.binary64 f).toNat =
      Sign.positive.toBitVec.toNat * 2 ^ 63 + word) : x = ofSign false word := by
  have hbits : UnpackedFloat.pack Format.binary64 f =
      UnpackedFloat.pack Format.binary64 (unpacked .positive word) :=
    BitVec.eq_of_toNat_eq (hf.trans (toNat_pack_unpacked _ hw).symm)
  have hmodel : x.toModel = (ofSign false word).toModel := by
    rw [hx, toModel_ofSign hw]
    simp only [Float.Model.pack, hbits]
  exact congrArg Float.ofModel hmodel

/-- Magnitude words are ordered by their exponents, and by the multiples of them. -/
theorem compare_scale (a b : Nat) :
    (compare (scale a).2 (scale b).2).then (compare (scale a).1 (scale b).1) = compare a b := by
  obtain ⟨he, hm, hnormal, hword⟩ := scale_bounds a
  obtain ⟨he', hm', hnormal', hword'⟩ := scale_bounds b
  rw [hidden_eq] at hword hword'
  rcases lt_trichotomy (scale a).2 (scale b).2 with hlt | heq | hgt
  · rw [compare_lt_iff_lt.2 hlt, compare_lt_iff_lt.2 (by omega : a < b)]
    rfl
  · rw [compare_eq_iff_eq.2 heq, Ordering.eq_then]
    rcases lt_trichotomy (scale a).1 (scale b).1 with hlt | hsame | hgt
    · rw [compare_lt_iff_lt.2 hlt, compare_lt_iff_lt.2 (by omega : a < b)]
    · rw [compare_eq_iff_eq.2 hsame, compare_eq_iff_eq.2 (by omega : a = b)]
    · rw [compare_gt_iff_gt.2 hgt, compare_gt_iff_gt.2 (by omega : a > b)]
  · rw [compare_gt_iff_gt.2 hgt, compare_gt_iff_gt.2 (by omega : a > b)]
    rfl

theorem compare_unpacked {a b : Nat} (ha : a ≤ infinity) (hb : b ≤ infinity) :
    (unpacked .positive a).compare (unpacked .positive b) = some (compare a b) := by
  have hinf := infinity_eq
  unfold unpacked
  split_ifs with ha₀ ha₁ hb₀ hb₁ hb₀ hb₁ hb₀ <;>
    simp only [UnpackedFloat.compare, Option.some.injEq]
  · exact compare_scale a b
  · exact (compare_lt_iff_lt.2 (by omega)).symm
  · exact (compare_gt_iff_gt.2 (by omega)).symm
  · exact (compare_gt_iff_gt.2 (by omega)).symm
  · rw [(by omega : a = b)]
    exact (compare_eq_iff_eq.2 rfl).symm
  · exact (compare_gt_iff_gt.2 (by omega)).symm
  · exact (compare_lt_iff_lt.2 (by omega)).symm
  · exact (compare_lt_iff_lt.2 (by omega)).symm
  · exact (compare_eq_iff_eq.2 (by omega)).symm

theorem compare_ofSign {a b : Nat} (ha : a ≤ infinity) (hb : b ≤ infinity) :
    (ofSign false a).toModel.unpack.compare (ofSign false b).toModel.unpack =
      some (compare a b) := by
  rw [unpack_ofSign ha, unpack_ofSign hb]
  exact compare_unpacked ha hb

/-- Floats are ordered as their magnitude words are. -/
theorem ofSign_lt_ofSign {a b : Nat} (ha : a ≤ infinity) (hb : b ≤ infinity) :
    ofSign false a < ofSign false b ↔ a < b := by
  rw [← Nat.compare_eq_lt]
  change decide ((ofSign false a).toModel.unpack.compare (ofSign false b).toModel.unpack ==
    some .lt) = true ↔ _
  rw [compare_ofSign ha hb]
  simp

theorem ofSign_beq_ofSign {a b : Nat} (ha : a ≤ infinity) (hb : b ≤ infinity) :
    (ofSign false a == ofSign false b) = decide (a = b) := by
  change ((ofSign false a).toModel.unpack.compare (ofSign false b).toModel.unpack ==
    some .eq) = _
  rw [compare_ofSign ha hb, Bool.eq_iff_iff]
  simp

end ReportTally.Binary64
