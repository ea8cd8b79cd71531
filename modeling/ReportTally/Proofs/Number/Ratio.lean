import ReportTally.Number.Ratio
import ReportTally.Proofs.Number.Division

/-!
# Ratios of counters

A ratio of two floats is above one just if its denominator is above zero and its numerator above the
denominator (`one_lt_ratio_iff`): two different floats are never so close that their quotient is
rounded to one. So whether a ratio of counters is above one is decided by the floats nearest to
them. Counters up to `2 ^ 53` are floats, and are told apart (`ofCounter_lt_of_le`).
-/

namespace ReportTally.Binary64

variable {a b : Nat}

/-! ## Quotients of values -/

theorem value_eq_div (word : Nat) : value word = (quotient word).1 / (quotient word).2 := by
  have h := div_shifted (scale word).1 1 (-(scale word).2)
  rw [neg_neg, one_mul, Nat.cast_one, div_one] at h
  exact h.symm

theorem quotient_snd_pos (word : Nat) : 0 < (quotient word).2 := by
  simp only [quotient, Nat.pow_eq]
  positivity

theorem quotient_fst_pos {word : Nat} (h : 0 < word) : 0 < (quotient word).1 := by
  have := scale_pos h
  simp only [quotient, Nat.pow_eq]
  positivity

/-- The quotient of the values of two words, as a quotient of naturals. -/
theorem exists_div_eq (ha : 0 < a) (hb : 0 < b) :
    ∃ n d : Nat, 0 < n ∧ 0 < d ∧ (n / d : ℚ) = value a / value b := by
  refine ⟨(quotient a).1 * (quotient b).2, (quotient a).2 * (quotient b).1,
    Nat.mul_pos (quotient_fst_pos ha) (quotient_snd_pos b),
    Nat.mul_pos (quotient_snd_pos a) (quotient_fst_pos hb), ?_⟩
  rw [value_eq_div, value_eq_div, div_div_div_eq, Nat.cast_mul, Nat.cast_mul]

/-- The quotient of a larger word by a smaller one is not just above one: the larger one is larger
by a unit of the smaller one, which has less than `2 ^ 53` of them. -/
theorem le_value_div_value (ha : 0 < a) (h : a < b) :
    (((2 ^ 53 : Nat) : ℚ) / (2 ^ 53 - 1 : Nat)) ≤ value b / value a := by
  obtain ⟨-, hm, -, -⟩ := scale_bounds a
  have hpos := scale_pos ha
  have hm' : ((scale a).1 : ℚ) ≤ 2 ^ 53 - 1 := by
    have : (scale a).1 + 1 ≤ 2 ^ 53 := hm
    have : ((scale a).1 : ℚ) + 1 ≤ 2 ^ 53 := by exact_mod_cast this
    linarith
  have hpos' : (0 : ℚ) < (scale a).1 := by exact_mod_cast hpos
  calc (((2 ^ 53 : Nat) : ℚ) / (2 ^ 53 - 1 : Nat)) = 1 + 1 / (2 ^ 53 - 1) := by norm_num
    _ ≤ 1 + 1 / (scale a).1 := by gcongr
    _ = (((scale a).1 + 1 : Nat) : ℚ) * 2 ^ (scale a).2 / value a := by
        unfold value
        push_cast
        field_simp
    _ ≤ value b / value a := by
        gcongr
        · exact (value_pos ha).le
        · exact succ_unit_le_value h

/-! ## Ratios of floats -/

theorem one_eq_ofSign : (1 : Float) = ofSign false (nearest 1 1) := by
  rfl

theorem zero_eq_ofSign : (0 : Float) = ofSign false 0 := by
  rfl

/-- A quotient of floats is above one just if the first one is larger. -/
theorem one_lt_div_iff (ha : 0 < a) (ha' : a < infinity) (hb : 0 < b) (hb' : b < infinity) :
    1 < ofSign false a / ofSign false b ↔ b < a := by
  obtain ⟨n, d, hn, hd, h⟩ := exists_div_eq ha hb
  rw [ofSign_div_ofSign ha ha' hb hb' hn hd h, one_eq_ofSign,
    ofSign_lt_ofSign (nearest_le_infinity _ _) (nearest_le_infinity _ _)]
  constructor
  · intro hlt
    by_contra hle
    refine absurd hlt (not_lt.2 (nearest_mono hd one_pos ?_))
    rw [h, Nat.cast_one, div_one]
    exact div_le_one_of_le₀ (value_le_value (not_lt.1 hle)) (value_pos hb).le
  · intro hlt
    have hstep : nearest 1 1 < nearest (2 ^ 53) (2 ^ 53 - 1) := by decide +kernel
    refine hstep.trans_le (nearest_mono (by norm_num) hd ?_)
    rw [h]
    exact le_value_div_value hb hlt

theorem zero_div_ofSign (hb : 0 < b) (hb' : b < infinity) :
    ofSign false 0 / ofSign false b = ofSign false 0 := by
  have hquot : (ofSign false 0 / ofSign false b).toModel = Float.Model.pack
      (Float.Model.UnpackedFloat.div .binary64 (ofSign false 0).toModel.unpack
        (ofSign false b).toModel.unpack) := rfl
  rw [unpack_ofSign (Nat.zero_le _), unpack_ofSign hb'.le, unpacked_of_pos hb hb'] at hquot
  exact eq_ofSign_of_bits hquot (Nat.zero_le _) (toNat_pack_unpacked _ (Nat.zero_le _))

/-- A ratio is above one just if its denominator is not zero and its numerator is larger. -/
theorem one_lt_ratio_iff (ha : a < infinity) (hb : b < infinity) :
    1 < ratio (ofSign false a) (ofSign false b) ↔ 0 < b ∧ b < a := by
  have hone : ¬ofSign false (nearest 1 1) < ofSign false 0 := by
    rw [ofSign_lt_ofSign (nearest_le_infinity _ _) (Nat.zero_le _)]
    exact Nat.not_lt_zero _
  rw [ratio, zero_eq_ofSign, ofSign_beq_ofSign hb.le (Nat.zero_le _)]
  rcases Nat.eq_zero_or_pos b with rfl | hpos
  · simpa [one_eq_ofSign] using hone
  · rw [if_neg (by simpa using hpos.ne')]
    rcases Nat.eq_zero_or_pos a with rfl | hpos'
    · rw [zero_div_ofSign hpos hb]
      simpa [one_eq_ofSign] using hone
    · rw [one_lt_div_iff hpos' ha hpos hb]
      exact (and_iff_right hpos).symm

/-! ## Counters -/

theorem nearest_lt_infinity {n : Nat} (hn : n < 2 ^ 64) : nearest n 1 < infinity := by
  have hmono : nearest n 1 ≤ nearest (2 ^ 64) 1 :=
    nearest_mono one_pos one_pos (by gcongr)
  have hlarge : nearest (2 ^ 64) 1 < infinity := by decide +kernel
  omega

theorem nearest_pos {n : Nat} (hn : 0 < n) : 0 < nearest n 1 := by
  have hmono : nearest 1 1 ≤ nearest n 1 := nearest_mono one_pos one_pos (by gcongr; omega)
  have hone : 0 < nearest 1 1 := by decide +kernel
  omega

/-- A natural number in units that divide it. -/
theorem unitsFor_one {e : Int} (he : e ≤ 0) (n : Nat) : unitsFor n 1 e = n * 2 ^ (-e).toNat := by
  rw [unitsFor, (by omega : e.toNat = 0)]
  exact roundQuotient_one _

theorem unitsFor_one_lt {e : Int} (he : e ≤ 0) {n : Nat} (h : (n / (1 : Nat) : ℚ) < 2 ^ (e + 53)) :
    unitsFor n 1 e < 2 ^ 53 := by
  have hlt : (n * 2 ^ (-e).toNat : ℚ) < 2 ^ 53 := by
    calc (n * 2 ^ (-e).toNat : ℚ) = n / (1 : Nat) * 2 ^ (-e) := by
          rw [Nat.cast_one, div_one, ← zpow_natCast, Int.toNat_of_nonneg (by omega)]
      _ < 2 ^ (e + 53) * 2 ^ (-e) := by gcongr
      _ = 2 ^ 53 := by rw [← zpow_add₀ (by norm_num), add_neg_cancel_comm]; rfl
  rw [unitsFor_one he]
  exact_mod_cast hlt

/-- Numbers up to `2 ^ 53` have different nearest words. -/
theorem nearest_lt_nearest {m n : Nat} (h : m < n) (hn : n ≤ 2 ^ 53) :
    nearest m 1 < nearest n 1 := by
  rcases Nat.eq_zero_or_pos m with rfl | hm
  · exact nearest_pos h
  have hn' : 0 < n := by omega
  have htwo : (1 : ℚ) < 2 := by norm_num
  have hle : (m / (1 : Nat) : ℚ) ≤ n / (1 : Nat) := by gcongr
  obtain ⟨he, hhigh, hlow⟩ := exponentFor_bounds hm one_pos
  obtain ⟨he', hhigh', hlow'⟩ := exponentFor_bounds hn' one_pos
  have hfin := nearest_lt_infinity (by omega : m < 2 ^ 64)
  have hexp : exponentFor m 1 ≤ 0 := by
    rcases hlow with heq | hlow
    · rw [heq]
      decide
    · have hlt : (m / (1 : Nat) : ℚ) < 2 ^ (53 : Int) := by
        rw [Nat.cast_one, div_one]
        exact_mod_cast (by omega : m < 2 ^ 53)
      have := (zpow_lt_zpow_iff_right₀ htwo).1 (hlow.trans_lt hlt)
      omega
  rw [nearest_of_pos hm] at hfin ⊢
  rw [nearest_of_pos hn']
  refine (min_le_left _ _).trans_lt (lt_min ?_ (by omega))
  rw [hidden_eq]
  rcases lt_trichotomy (exponentFor m 1) (exponentFor n 1) with hlt | heq | hgt
  · have hsmall : unitsFor m 1 (exponentFor m 1) < 2 ^ 53 := unitsFor_one_lt hexp hhigh
    have hlarge : 2 ^ 52 ≤ unitsFor n 1 (exponentFor n 1) := by
      refine le_unitsFor one_pos ?_
      rw [← zpow_add_natCast]
      exact hlow'.resolve_left (by omega)
    omega
  · rw [← heq, unitsFor_one hexp, unitsFor_one hexp]
    exact Nat.add_lt_add_left (Nat.mul_lt_mul_of_pos_right h (by positivity)) _
  · have hsame := hlow.resolve_left (by omega)
    have := (zpow_lt_zpow_iff_right₀ htwo).1 ((hsame.trans hle).trans_lt hhigh')
    omega

theorem ofCounter_of_nonneg {n : Counter} (hn : 0 ≤ n.toInt) :
    ofCounter n = ofSign false (nearest n.toInt.natAbs 1) := by
  rw [ofCounter, decide_eq_false (by omega)]

theorem natAbs_lt_of_counter (n : Counter) : n.toInt.natAbs < 2 ^ 64 := by
  have hlow := Counter.least_le_toInt n
  have hhigh := Counter.toInt_le_greatest n
  unfold Counter.least at hlow
  unfold Counter.greatest at hhigh
  omega

theorem ofCounter_lt_iff {m n : Counter} (hm : 0 ≤ m.toInt) (hn : 0 ≤ n.toInt) :
    ofCounter m < ofCounter n ↔ nearest m.toInt.natAbs 1 < nearest n.toInt.natAbs 1 := by
  rw [ofCounter_of_nonneg hm, ofCounter_of_nonneg hn,
    ofSign_lt_ofSign (nearest_le_infinity _ _) (nearest_le_infinity _ _)]

/-- A ratio of counters is above one just if the denominator is above zero, and the float nearest
to the numerator is above the one nearest to the denominator. -/
theorem one_lt_ratio_ofCounter_iff {m n : Counter} (hm : 0 ≤ m.toInt) (hn : 0 ≤ n.toInt) :
    1 < ratio (ofCounter m) (ofCounter n) ↔ 0 < n.toInt ∧ ofCounter n < ofCounter m := by
  rw [ofCounter_lt_iff hn hm, ofCounter_of_nonneg hm, ofCounter_of_nonneg hn,
    one_lt_ratio_iff (nearest_lt_infinity (natAbs_lt_of_counter m))
      (nearest_lt_infinity (natAbs_lt_of_counter n))]
  refine and_congr_left fun _ => ⟨fun h => ?_, fun h => nearest_pos (by omega)⟩
  by_contra hle
  rw [(by omega : n.toInt.natAbs = 0)] at h
  exact Nat.lt_irrefl 0 h

/-- The nearest floats are ordered as the counters are, and may be equal. -/
theorem le_of_ofCounter_lt {m n : Counter} (hm : 0 ≤ m.toInt) (hn : 0 ≤ n.toInt)
    (h : ofCounter m < ofCounter n) : m.toInt < n.toInt := by
  rw [ofCounter_lt_iff hm hn] at h
  by_contra hle
  exact absurd h (not_lt.2 (nearest_mono one_pos one_pos (by gcongr; omega)))

/-- Counters up to `2 ^ 53` are told apart by the nearest floats. -/
theorem ofCounter_lt_of_le {m n : Counter} (hm : 0 ≤ m.toInt) (h : m.toInt < n.toInt)
    (hn : n.toInt ≤ 2 ^ 53) : ofCounter m < ofCounter n := by
  rw [ofCounter_lt_iff hm (by omega)]
  exact nearest_lt_nearest (by omega) (by omega)

/-- The floats nearest to two counters are the same, or one is above the other one. -/
theorem ofCounter_eq_of_not_lt {m n : Counter} (hm : 0 ≤ m.toInt) (h : m.toInt < n.toInt)
    (hlt : ¬ofCounter m < ofCounter n) : ofCounter m = ofCounter n := by
  have hn : 0 ≤ n.toInt := by omega
  have hmono : nearest m.toInt.natAbs 1 ≤ nearest n.toInt.natAbs 1 :=
    nearest_mono one_pos one_pos (by gcongr; omega)
  rw [ofCounter_lt_iff hm hn] at hlt
  rw [ofCounter_of_nonneg hm, ofCounter_of_nonneg hn, (by omega :
    nearest m.toInt.natAbs 1 = nearest n.toInt.natAbs 1)]

end ReportTally.Binary64
