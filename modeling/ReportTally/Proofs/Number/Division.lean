import ReportTally.Proofs.Number.Words

/-!
# Division

The quotient of two floats is the float nearest to their exact quotient (`ofSign_div_ofSign`).

A division cuts the exact quotient to an integer and two bits, which say how the rest compares with
zero and with a half. These bits are exact (`Represents`), they stay exact when the integer is cut
further, and rounding by them rounds the exact quotient. As the nearest word is determined by the
exact quotient, the float is the nearest one whichever exponent the division has started from.
-/

namespace ReportTally.Binary64

open Float.Model (Format UnpackedFloat totalExponent)
open Float.Model.UnpackedFloat

/-! ## Mantissas that are cut -/

/-- An extended mantissa holds a quotient: its integer, and how the rest of the quotient compares
with zero and with a half. -/
structure Represents (em : ExtendedMantissa) (n d : Nat) : Prop where
  /-- The integer. -/
  mantissa : em.mantissa = n / d
  /-- The rest is at least a half. -/
  roundBit : em.roundBit = decide (d ≤ 2 * (n % d))
  /-- The rest is neither zero nor a half. -/
  stickyBit : em.stickyBit = decide (2 * (n % d) ≠ 0 ∧ 2 * (n % d) ≠ d)

theorem represents_ofMantissaAndAccuracy (n : Nat) {d : Nat} (hd : 0 < d) :
    Represents (.ofMantissaAndAccuracy (n / d) (accuracyOfFraction (n % d) d)) n d := by
  unfold accuracyOfFraction
  split_ifs with hzero
  · refine ⟨rfl, ?_, ?_⟩ <;> simp [ExtendedMantissa.ofMantissaAndAccuracy, hzero]
    omega
  · rcases lt_trichotomy (2 * (n % d)) d with hlt | heq | hgt
    · rw [compare_lt_iff_lt.2 hlt]
      refine ⟨rfl, ?_, ?_⟩ <;> simp [ExtendedMantissa.ofMantissaAndAccuracy] <;> omega
    · rw [compare_eq_iff_eq.2 heq]
      refine ⟨rfl, ?_, ?_⟩ <;> simp [ExtendedMantissa.ofMantissaAndAccuracy, heq]
    · rw [compare_gt_iff_gt.2 hgt]
      refine ⟨rfl, ?_, ?_⟩ <;> simp [ExtendedMantissa.ofMantissaAndAccuracy] <;> omega

theorem Represents.shiftRightOne {em : ExtendedMantissa} {n d : Nat} (h : Represents em n d)
    (hd : 0 < d) : Represents em.shiftRightOne n (d * 2) := by
  have hr := Nat.mod_lt n hd
  have hmod : n % (d * 2) = n % d + d * (n / d % 2) := Nat.mod_mul
  refine ⟨?_, ?_, ?_⟩
  · rw [ExtendedMantissa.shiftRightOne, h.mantissa, Nat.div_div_eq_div_mul]
  · rw [ExtendedMantissa.shiftRightOne, h.mantissa, hmod]
    rcases Nat.mod_two_eq_zero_or_one (n / d) with heven | hodd
    · simp [heven]
      omega
    · simp [hodd]
      omega
  · rw [ExtendedMantissa.shiftRightOne, h.roundBit, h.stickyBit, hmod, Bool.eq_iff_iff]
    rcases Nat.mod_two_eq_zero_or_one (n / d) with heven | hodd
    · simp [heven]
      omega
    · simp [hodd]
      omega

theorem Represents.shiftRight {em : ExtendedMantissa} {n d : Nat} (h : Represents em n d)
    (hd : 0 < d) (k : Nat) : Represents (em >>> k) n (d * 2 ^ k) := by
  induction k with
  | zero =>
    rw [pow_zero, mul_one]
    exact h
  | succ k ih =>
    rw [pow_succ, ← mul_assoc]
    exact ih.shiftRightOne (by positivity)

theorem Represents.roundedMantissa {em : ExtendedMantissa} {n d : Nat} (h : Represents em n d)
    (hd : 0 < d) : em.roundedMantissa = roundQuotient n d := by
  obtain ⟨m, b, c⟩ := em
  obtain ⟨rfl, rfl, rfl⟩ := h
  unfold ExtendedMantissa.roundedMantissa roundQuotient
  rcases lt_trichotomy (2 * (n % d)) d with hlt | heq | hgt
  · rw [decide_eq_false (not_le.2 hlt)]
    dsimp only
    rw [if_pos hlt]
    cases decide (2 * (n % d) ≠ 0 ∧ 2 * (n % d) ≠ d) <;> rfl
  · rw [decide_eq_true heq.ge, decide_eq_false (by omega)]
    dsimp only
    rw [if_neg (by omega), if_neg (by omega)]
    rfl
  · rw [decide_eq_true hgt.le, decide_eq_true (by omega)]
    dsimp only
    rw [if_neg (by omega), if_pos hgt]
    rfl

/-! ## Rounding a mantissa -/

/-- The exponent of a mantissa of 53 bits, or the least exponent. -/
theorem targetExponent_eq (m : Nat) (e : Int) :
    Format.binary64.targetExponent (totalExponent m e) =
      max ((m.log2 : Int) + e - 52) leastExponent := by
  have hbits : (Format.binary64.mantissaBits : Int) = 53 := rfl
  have hleast : Format.binary64.minExponent = leastExponent := by decide
  rw [Format.targetExponent, totalExponent, hbits, hleast]
  congr 1
  omega

theorem shiftToTargetExponent_eq (m : Nat) (e : Int) (accuracy : Accuracy) :
    shiftToTargetExponent Format.binary64 m e accuracy =
      (ExtendedMantissa.ofMantissaAndAccuracy m accuracy >>>
        (max ((m.log2 : Int) + e - 52) leastExponent - e).toNat,
        e + (max ((m.log2 : Int) + e - 52) leastExponent - e).toNat) := by
  rw [shiftToTargetExponent, targetExponent_eq]
  rfl

/-- A rounded mantissa needs no second shift, unless rounding has carried it to `2 ^ 53`. -/
theorem shift_rounded {m : Nat} {e : Int} (he : leastExponent ≤ e) (hm : m ≤ 2 ^ 53) :
    ∃ m' k : Nat, shiftToTargetExponent Format.binary64 m e .exact = (⟨m', false, false⟩, e + k) ∧
      (k = 0 ∧ m' = m ∧ m < 2 ^ 53 ∨ k = 1 ∧ m' = 2 ^ 52 ∧ m = 2 ^ 53) := by
  rcases hm.lt_or_eq with hlt | rfl
  · have hlog : m.log2 < 53 := by
      rcases Nat.eq_zero_or_pos m with rfl | hpos
      · decide
      · exact (Nat.log2_lt hpos.ne').2 hlt
    refine ⟨m, 0, ?_, Or.inl ⟨rfl, rfl, hlt⟩⟩
    rw [shiftToTargetExponent_eq, (by omega :
      (max ((m.log2 : Int) + e - 52) leastExponent - e).toNat = 0)]
    rfl
  · refine ⟨2 ^ 52, 1, ?_, Or.inr ⟨rfl, rfl, rfl⟩⟩
    rw [shiftToTargetExponent_eq, Nat.log2_two_pow, (by omega :
      (max (((53 : Nat) : Int) + e - 52) leastExponent - e).toNat = 1)]
    rfl

/-- The bits of a float, by its mantissa after the first shift and rounding. -/
theorem toNat_pack_roundWithAccuracy {q : Nat} {e e' : Int} {accuracy : Accuracy}
    {em : ExtendedMantissa} {m : Nat}
    (hshift : shiftToTargetExponent Format.binary64 q e accuracy = (em, e'))
    (hround : em.roundedMantissa = m) (he : leastExponent ≤ e') (hm : m ≤ 2 ^ 53)
    (hnormal : e' = leastExponent ∨ 2 ^ 52 ≤ m) (s : Sign) :
    (pack Format.binary64 (roundWithAccuracy Format.binary64 s q e accuracy)).toNat =
      s.toBitVec.toNat * 2 ^ 63 + min ((e' - leastExponent).toNat * hidden + m) infinity := by
  obtain ⟨m', k, hshift', hcarry⟩ := shift_rounded he hm
  unfold roundWithAccuracy
  rw [hshift]
  dsimp only
  rw [hround, hshift']
  dsimp only
  split_ifs with hzero
  · obtain rfl : m = 0 := by omega
    obtain rfl := hnormal.resolve_right (by omega)
    rw [sub_self, Int.toNat_zero, zero_mul, zero_add, Nat.zero_min]
    exact toNat_pack_unpacked s (Nat.zero_le infinity)
  · have hword : (e' + k - leastExponent).toNat * hidden + m' =
        (e' - leastExponent).toNat * hidden + m := by
      rw [hidden_eq]
      omega
    rw [toNat_pack_finite (Nat.pos_of_ne_zero hzero) (by omega) (by omega) (by omega), hword]

/-! ## Rounding a quotient -/

/-- A quotient lies between two powers of two if its integer does. -/
theorem div_bounds_of_log2 {n d : Nat} (hd : 0 < d) :
    (n / d : ℚ) < 2 ^ (((n / d).log2 : Int) + 1) ∧
      (0 < n / d → (2 : ℚ) ^ ((n / d).log2 : Int) ≤ n / d) := by
  have hd' : (0 : ℚ) < d := by exact_mod_cast hd
  constructor
  · rw [div_lt_iff₀ hd']
    have hlt : n < 2 ^ ((n / d).log2 + 1) * d := (Nat.div_lt_iff_lt_mul hd).1 Nat.lt_log2_self
    exact_mod_cast hlt
  · intro hpos
    rw [le_div_iff₀ hd']
    have hle : 2 ^ (n / d).log2 * d ≤ n :=
      (Nat.le_div_iff_mul_le hd).1 (Nat.log2_self_le hpos.ne')
    exact_mod_cast hle

/-- The exponent to which the integer of a quotient is cut fits the quotient. -/
theorem targetExponent_fits {n d n' d' : Nat} {e e' : Int} (hd : 0 < d)
    (h : (n' / d' : ℚ) = n / d * 2 ^ e) (he : e ≤ e')
    (he' : max (((n / d).log2 : Int) + e - 52) leastExponent = e') :
    (n' / d' : ℚ) < 2 ^ (e' + 53) ∧
      (e' = leastExponent ∨ (2 : ℚ) ^ (e' + 52) ≤ n' / d') := by
  obtain ⟨hhigh, hlow⟩ := div_bounds_of_log2 (n := n) hd
  have htwo : (2 : ℚ) ≠ 0 := by norm_num
  constructor
  · calc (n' / d' : ℚ) = n / d * 2 ^ e := h
      _ < 2 ^ (((n / d).log2 : Int) + 1) * 2 ^ e := by gcongr
      _ = 2 ^ (((n / d).log2 : Int) + 1 + e) := (zpow_add₀ htwo _ _).symm
      _ ≤ 2 ^ (e' + 53) := zpow_le_zpow_right₀ (by norm_num) (by omega)
  · refine or_iff_not_imp_left.2 fun hne => ?_
    -- An integer that is zero would be cut to an exponent below its own.
    have hpos : 0 < n / d := by
      rcases Nat.eq_zero_or_pos (n / d) with hzero | hpos
      · rw [hzero, Nat.log2_zero] at he'
        omega
      · exact hpos
    calc (2 : ℚ) ^ (e' + 52) = 2 ^ (((n / d).log2 : Int) + e) := by congr 1; omega
      _ = 2 ^ ((n / d).log2 : Int) * 2 ^ e := zpow_add₀ htwo _ _
      _ ≤ n / d * 2 ^ e := by gcongr; exact hlow hpos
      _ = n' / d' := h.symm

/-- A quotient in units of one power of two, cut to units of a larger one. -/
theorem roundQuotient_cut {n d n' d' : Nat} {e e' : Int} (hd : 0 < d) (hd' : 0 < d')
    (h : (n' / d' : ℚ) = n / d * 2 ^ e) (he : e ≤ e') :
    roundQuotient n (d * 2 ^ (e' - e).toNat) = unitsFor n' d' e' := by
  have hpow : (2 : ℚ) ^ (e + -e') = ((2 ^ (e' - e).toNat : Nat) : ℚ)⁻¹ := by
    rw [Nat.cast_pow, Nat.cast_ofNat, ← zpow_natCast, ← zpow_neg]
    congr 1
    omega
  refine roundQuotient_congr (by positivity) (shifted_pos hd' e') ?_
  rw [div_shifted, h, mul_assoc, ← zpow_add₀ (by norm_num), hpow, Nat.cast_mul, ← div_div,
    div_eq_mul_inv]

/-- The bits of a quotient are those of the nearest magnitude word, if its exponent is small enough
for its integer to have all bits of a mantissa. -/
theorem toNat_pack_quotient {n d n' d' : Nat} {e : Int} (hd : 0 < d) (hn' : 0 < n') (hd' : 0 < d')
    (he : e ≤ max (((n / d).log2 : Int) + e - 52) leastExponent)
    (h : (n' / d' : ℚ) = n / d * 2 ^ e) (s : Sign) :
    (pack Format.binary64 (roundWithAccuracy Format.binary64 s (n / d) e
      (accuracyOfFraction (n % d) d))).toNat = s.toBitVec.toNat * 2 ^ 63 + nearest n' d' := by
  generalize he' : max (((n / d).log2 : Int) + e - 52) leastExponent = e' at he
  obtain ⟨hhigh, hlow⟩ := targetExponent_fits hd h he he'
  have hleast : leastExponent ≤ e' := by omega
  have hshift : shiftToTargetExponent Format.binary64 (n / d) e (accuracyOfFraction (n % d) d) =
      (ExtendedMantissa.ofMantissaAndAccuracy (n / d) (accuracyOfFraction (n % d) d) >>>
        (e' - e).toNat, e') := by
    rw [shiftToTargetExponent_eq, he']
    congr 1
    omega
  have hrep := (represents_ofMantissaAndAccuracy n hd).shiftRight hd (e' - e).toNat
  have hround := (hrep.roundedMantissa (by positivity)).trans (roundQuotient_cut hd hd' h he)
  rw [toNat_pack_roundWithAccuracy hshift hround hleast,
    ← nearest_eq_of_exponent hn' hd' hleast hhigh hlow]
  · refine unitsFor_le hd' ?_
    rw [← zpow_add_natCast]
    exact hhigh.le
  · refine hlow.imp id fun hle => le_unitsFor hd' ?_
    rw [← zpow_add_natCast]
    exact hle

/-! ## Division -/

/-- A division leaves enough bits in the integer of its quotient. -/
theorem divCore_exponent_le {m n : Nat} {e : Int} (hm : 0 < m) (hn : 0 < n) {k : Nat}
    (h : e ≤ max ((m.log2 : Int) - n.log2 + (e + k) - 53) leastExponent) :
    e ≤ max (((m <<< k / n).log2 : Int) + e - 52) leastExponent := by
  rcases le_or_gt e leastExponent with hle | hgt
  · omega
  · have hk : n.log2 + 53 ≤ m.log2 + k := by omega
    have hq : 2 ^ 52 ≤ m <<< k / n := by
      rw [Nat.le_div_iff_mul_le hn, Nat.shiftLeft_eq]
      calc 2 ^ 52 * n ≤ 2 ^ 52 * 2 ^ (n.log2 + 1) := Nat.mul_le_mul_left _ Nat.lt_log2_self.le
        _ = 2 ^ (n.log2 + 53) := by rw [← pow_add]; congr 1; omega
        _ ≤ 2 ^ (m.log2 + k) := Nat.pow_le_pow_right two_pos hk
        _ = 2 ^ m.log2 * 2 ^ k := pow_add _ _ _
        _ ≤ m * 2 ^ k := Nat.mul_le_mul_right _ (Nat.log2_self_le hm.ne')
    have := (Nat.le_log2 (by omega : m <<< k / n ≠ 0)).2 hq
    omega

/-- The integer and the rest of a quotient of two mantissas, and its bits after rounding. -/
theorem toNat_pack_div {m₁ m₂ n d : Nat} {e₁ e₂ : Int} (hm₁ : 0 < m₁) (hm₂ : 0 < m₂) (hn : 0 < n)
    (hd : 0 < d) (h : (n / d : ℚ) = m₁ * 2 ^ e₁ / (m₂ * 2 ^ e₂)) (s₁ s₂ : Sign) :
    (pack Format.binary64 (UnpackedFloat.div Format.binary64 (.finite s₁ m₁ e₁ hm₁)
      (.finite s₂ m₂ e₂ hm₂))).toNat = (s₁ / s₂).toBitVec.toNat * 2 ^ 63 + nearest n d := by
  have hbits : (Format.binary64.mantissaBits : Int) = 53 := rfl
  have hleast : Format.binary64.minExponent = leastExponent := by decide
  have htwo : (2 : ℚ) ≠ 0 := by norm_num
  simp only [UnpackedFloat.div, divCore, Format.targetExponent, totalExponent, hbits, hleast]
  generalize he : min (e₁ - e₂) (max ((m₁.log2 : Int) + 1 + e₁ - (m₂.log2 + 1 + e₂) - 53)
    leastExponent) = e
  obtain ⟨k, hk⟩ : ∃ k : Nat, (e₁ - e₂ - e).toNat = k := ⟨_, rfl⟩
  rw [hk]
  refine toNat_pack_quotient hm₂ hn hd (divCore_exponent_le hm₁ hm₂ (by omega)) ?_ _
  have hexp : (2 : ℚ) ^ e₁ = 2 ^ k * 2 ^ e * 2 ^ e₂ := by
    rw [← zpow_natCast, ← zpow_add₀ htwo, ← zpow_add₀ htwo]
    congr 1
    omega
  have hpos : (2 : ℚ) ^ e₂ ≠ 0 := by positivity
  have hm₂' : (m₂ : ℚ) ≠ 0 := by positivity
  rw [h, hexp, Nat.shiftLeft_eq]
  push_cast
  field_simp

/-- A float divided by another one is the float nearest to the exact quotient. -/
theorem ofSign_div_ofSign {a b n d : Nat} (ha : 0 < a) (ha' : a < infinity) (hb : 0 < b)
    (hb' : b < infinity) (hn : 0 < n) (hd : 0 < d) (h : (n / d : ℚ) = value a / value b) :
    ofSign false a / ofSign false b = ofSign false (nearest n d) := by
  have hbits := toNat_pack_div (scale_pos ha) (scale_pos hb) hn hd h .positive .positive
  have hquot : (ofSign false a / ofSign false b).toModel = Float.Model.pack
      (UnpackedFloat.div Format.binary64 (ofSign false a).toModel.unpack
        (ofSign false b).toModel.unpack) := rfl
  rw [unpack_ofSign ha'.le, unpack_ofSign hb'.le, unpacked_of_pos ha ha',
    unpacked_of_pos hb hb'] at hquot
  exact eq_ofSign_of_bits hquot (nearest_le_infinity n d) hbits

end ReportTally.Binary64
