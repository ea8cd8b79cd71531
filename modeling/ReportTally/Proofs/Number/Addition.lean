import ReportTally.Proofs.Number.Division
import ReportTally.Proofs.Number.Signs

/-!
# Addition

The sum of two finite floats is the float nearest to their exact sum (`add_nearest`). It is finite
unless the exact sum reaches half a unit beyond the largest float (`isFinite_add_iff`), and no sum
with what is not finite is finite (`isFinite_of_add`).

An addition brings both mantissas to the lesser exponent, so their sum is exact, and is rounded
once. A word is the nearest one to its own value (`nearest_of_value`), so a sum with zero is no
exception.
-/

namespace ReportTally.Binary64

open Float.Model (UnpackedFloat Format totalExponent)
open Float.Model.UnpackedFloat

/-! ## Exact values -/

/-- A word is the nearest one to its own value. -/
theorem nearest_of_value {word n d : Nat} (hword : word ≤ infinity) (hd : 0 < d)
    (h : (n / d : ℚ) = value word) : nearest n d = word := by
  have hd' : (0 : ℚ) < d := by exact_mod_cast hd
  rcases Nat.eq_zero_or_pos word with rfl | hpos
  · have hzero : (n : ℚ) / d = 0 := h.trans (by simp [value, scale])
    have hn : (n : ℚ) = 0 := by simpa [hd'.ne'] using hzero
    rw [Nat.cast_eq_zero.1 hn]
    rfl
  · obtain ⟨he, hm, hnormal, hsum⟩ := scale_bounds word
    have hn : 0 < n := by
      have hn' : (0 : ℚ) < n / d := h ▸ value_pos hpos
      exact_mod_cast (div_pos_iff_of_pos_right hd').1 hn'
    have hunits : unitsFor n d (scale word).2 = (scale word).1 :=
      le_antisymm (unitsFor_le hd h.le) (le_unitsFor hd h.ge)
    have hm' : ((scale word).1 : ℚ) < (2 ^ 53 : Nat) := by exact_mod_cast hm
    rw [nearest_eq_of_exponent hn hd he ?_ ?_, hunits, hsum, min_eq_left hword]
    · rw [h, value, (by norm_num : (53 : Int) = (53 : Nat)), zpow_add_natCast]
      gcongr
    · refine hnormal.imp id fun hle => ?_
      have hle' : ((2 ^ 52 : Nat) : ℚ) ≤ (scale word).1 := by exact_mod_cast hle
      rw [h, value, (by norm_num : (52 : Int) = (52 : Nat)), zpow_add_natCast]
      gcongr

/-- The least quotient that is rounded to infinity: half a unit beyond the largest float. -/
def overflow : ℚ :=
  (2 ^ 54 - 1 : Nat) * 2 ^ 970

theorem infinity_le_nearest {n d : Nat} (hd : 0 < d) (h : overflow ≤ n / d) :
    infinity ≤ nearest n d := by
  have hover : nearest ((2 ^ 54 - 1) * 2 ^ 970) 1 = infinity := by decide +kernel
  rw [← hover]
  refine nearest_mono one_pos hd (le_trans (le_of_eq ?_) h)
  rw [overflow, Nat.cast_mul, Nat.cast_pow, Nat.cast_ofNat, Nat.cast_one, div_one]

theorem overflow_lt : overflow < 2 ^ (1024 : Int) := by
  have hpow : (2 : ℚ) ^ (1024 : Int) = (2 ^ 54 : Nat) * 2 ^ 970 := by
    rw [(by norm_num : (1024 : Int) = (970 : Nat) + (54 : Nat)), zpow_add_natCast, zpow_natCast]
  rw [hpow, overflow]
  gcongr
  norm_num

/-- A quotient less than half a unit above some units is not rounded beyond them. -/
theorem unitsFor_le_of_lt_half {n d k : Nat} (hd : 0 < d) {e : Int}
    (h : (n / d : ℚ) < (2 * k + 1 : Nat) * 2 ^ e) : unitsFor n d (e + 1) ≤ k := by
  have hshift := shifted_pos hd (e + 1)
  refine (roundQuotient_le_iff hshift k).2 (Or.inl ?_)
  have hhalf : ((n * Nat.pow 2 (-(e + 1)).toNat : Nat) : ℚ) / (d * Nat.pow 2 (e + 1).toNat : Nat) <
      (2 * k + 1 : Nat) / 2 := by
    rw [div_shifted]
    calc (n / d : ℚ) * 2 ^ (-(e + 1)) < (2 * k + 1 : Nat) * 2 ^ e * 2 ^ (-(e + 1)) := by gcongr
      _ = (2 * k + 1 : Nat) / 2 := by
          rw [mul_assoc, ← zpow_add₀ (by norm_num), (by ring : e + -(e + 1) = -1), zpow_neg_one,
            div_eq_mul_inv]
  rw [div_lt_div_iff₀ (by exact_mod_cast hshift) two_pos, mul_comm] at hhalf
  exact_mod_cast hhalf

theorem nearest_lt_infinity_of_lt {n d : Nat} (hd : 0 < d) (h : (n / d : ℚ) < overflow) :
    nearest n d < infinity := by
  rcases Nat.eq_zero_or_pos n with rfl | hn
  · exact (by decide : 0 < infinity)
  obtain ⟨he, hhigh, hlow⟩ := exponentFor_bounds hn hd
  have hunits : unitsFor n d (exponentFor n d) ≤ 2 ^ 53 :=
    unitsFor_le hd (by rw [← zpow_add_natCast]; exact hhigh.le)
  have hexp : exponentFor n d ≤ 971 := by
    rcases hlow with heq | hle
    · rw [heq]
      decide
    · have := (zpow_lt_zpow_iff_right₀ (by norm_num : (1 : ℚ) < 2)).1
        ((hle.trans_lt h).trans overflow_lt)
      omega
  rw [nearest_of_pos hn, min_lt_iff, infinity_eq, hidden_eq]
  left
  rcases hexp.lt_or_eq with hlt | heq
  · unfold leastExponent at he ⊢
    omega
  · -- With the largest exponent the quotient is below half a unit beyond the largest mantissa.
    have hround : unitsFor n d 971 ≤ 2 ^ 53 - 1 := by
      refine unitsFor_le_of_lt_half (e := 970) hd ?_
      rw [(by norm_num : (970 : Int) = (970 : Nat)), zpow_natCast]
      exact h
    rw [heq]
    unfold leastExponent
    omega

theorem nearest_lt_infinity_iff {n d : Nat} (hd : 0 < d) :
    nearest n d < infinity ↔ (n / d : ℚ) < overflow :=
  ⟨fun h => not_le.1 fun hle => absurd h (not_lt.2 (infinity_le_nearest hd hle)),
    nearest_lt_infinity_of_lt hd⟩

/-! ## Rounding an integer -/

theorem log2_shiftLeft {m : Nat} (hm : 0 < m) (k : Nat) : (m <<< k).log2 = m.log2 + k := by
  induction k with
  | zero => rfl
  | succ k ih =>
    have hpos : m <<< k ≠ 0 := by
      rw [Nat.shiftLeft_eq]
      positivity
    rw [Nat.shiftLeft_succ, Nat.log2_two_mul hpos, ih, Nat.add_assoc]

/-- The bits of an integer after rounding. -/
theorem toNat_pack_round {m n d : Nat} {e : Int} (hm : 0 < m) (hd : 0 < d)
    (h : (n / d : ℚ) = m * 2 ^ e) (s : Sign) :
    (pack Format.binary64 (UnpackedFloat.round Format.binary64 s m e)).toNat =
      s.toBitVec.toNat * 2 ^ 63 + nearest n d := by
  have hm' : (0 : ℚ) < m := by exact_mod_cast hm
  have hd' : (0 : ℚ) < d := by exact_mod_cast hd
  have hn : 0 < n := by
    have hpos : (0 : ℚ) < n / d := by
      rw [h]
      positivity
    exact_mod_cast (div_pos_iff_of_pos_right hd').1 hpos
  unfold UnpackedFloat.round decreaseExponent
  simp only [targetExponent_eq]
  generalize hk : (e - max ((m.log2 : Int) + e - 52) leastExponent).toNat = k
  have hlog : (m <<< k).log2 = m.log2 + k := log2_shiftLeft hm k
  have hquot := toNat_pack_quotient (n := m <<< k) (d := 1) (e := e - k) one_pos hn hd ?_ ?_ s
  · rw [Nat.div_one, Nat.mod_one] at hquot
    exact hquot
  · rw [Nat.div_one, hlog]
    push_cast
    omega
  · have hexp : (2 : ℚ) ^ e = 2 ^ k * 2 ^ (e - k) := by
      rw [← zpow_natCast, ← zpow_add₀ (by norm_num)]
      congr 1
      omega
    rw [h, hexp, Nat.shiftLeft_eq]
    push_cast
    ring

/-- The bits of an integer of either sign after rounding. -/
theorem toNat_pack_normalize {k e : Int} {n d : Nat} (hd : 0 < d)
    (h : (n / d : ℚ) = |(k : ℚ) * 2 ^ e|) :
    (pack Format.binary64 (UnpackedFloat.normalize Format.binary64 k e .positive)).toNat =
      (if k < 0 then Sign.negative else .positive).toBitVec.toNat * 2 ^ 63 + nearest n d := by
  have hpow : (0 : ℚ) < 2 ^ e := by positivity
  unfold UnpackedFloat.normalize
  rcases lt_trichotomy k 0 with hneg | rfl | hpos
  · rw [compare_lt_iff_lt.2 hneg, if_pos hneg]
    refine toNat_pack_round (by omega) hd ?_ .negative
    have hcast : (((-k).toNat : Nat) : ℚ) = -k := by
      rw [← Int.cast_natCast, Int.toNat_of_nonneg (by omega), Int.cast_neg]
    have hneg' : (k : ℚ) < 0 := by exact_mod_cast hneg
    rw [h, hcast, abs_mul, abs_of_neg hneg', abs_of_pos hpow]
  · have hn : (n : ℚ) / d = value 0 := by rw [h, value_zero]; simp
    rw [nearest_of_value (Nat.zero_le _) hd hn]
    exact toNat_pack_unpacked .positive (Nat.zero_le _)
  · rw [compare_gt_iff_gt.2 hpos, if_neg hpos.le.not_gt]
    refine toNat_pack_round (by omega) hd ?_ .positive
    have hcast : ((k.toNat : Nat) : ℚ) = k := by
      rw [← Int.cast_natCast, Int.toNat_of_nonneg hpos.le]
    have hpos' : (0 : ℚ) < k := by exact_mod_cast hpos
    rw [h, hcast, abs_of_pos (by positivity)]

/-! ## Sums -/

/-- A mantissa with its sign, brought to a lesser exponent. -/
theorem apply_shiftLeft (s : Sign) (word : Nat) {e : Int} (he : e ≤ (scale word).2) :
    ((s.apply ((scale word).1 <<< ((scale word).2 - e).toNat : Nat) : Int) : ℚ) * 2 ^ e =
      signed s word := by
  have hexp : (2 : ℚ) ^ (scale word).2 = 2 ^ ((scale word).2 - e).toNat * 2 ^ e := by
    rw [← zpow_natCast, ← zpow_add₀ (by norm_num)]
    congr 1
    omega
  have hvalue : (((scale word).1 <<< ((scale word).2 - e).toNat : Nat) : ℚ) * 2 ^ e =
      value word := by
    rw [value, hexp, Nat.shiftLeft_eq]
    push_cast
    ring
  cases s with
  | negative => simp only [Sign.apply, signed, Int.cast_neg, Int.cast_natCast, neg_mul, hvalue]
  | positive => simp only [Sign.apply, signed, Int.cast_natCast, hvalue]

/-- The bits of a sum of floats that are not zero: both are written with the smaller exponent. -/
theorem toNat_pack_add_of_pos {s t : Sign} {a b n d : Nat} (ha₀ : 0 < a) (ha : a < infinity)
    (hb₀ : 0 < b) (hb : b < infinity) (hd : 0 < d)
    (h : (n / d : ℚ) = |signed s a + signed t b|) :
    ∃ u : Sign, (pack Format.binary64 (UnpackedFloat.add Format.binary64 (unpacked s a)
        (unpacked t b))).toNat = u.toBitVec.toNat * 2 ^ 63 + nearest n d ∧
      (signed s a + signed t b < 0 → u = .negative) ∧
      (0 < signed s a + signed t b → u = .positive) := by
  rw [unpacked_of_pos ha₀ ha, unpacked_of_pos hb₀ hb]
  simp only [UnpackedFloat.add, decreaseExponent]
  have hleft := apply_shiftLeft s a (min_le_left (scale a).2 (scale b).2)
  have hright := apply_shiftLeft t b (min_le_right (scale a).2 (scale b).2)
  generalize min (scale a).2 (scale b).2 = e at hleft hright ⊢
  generalize s.apply _ = k at hleft
  generalize t.apply _ = l at hright
  have hpow : (0 : ℚ) < 2 ^ e := by positivity
  have hsum : ((k + l : Int) : ℚ) * 2 ^ e = signed s a + signed t b := by
    rw [Int.cast_add, add_mul, hleft, hright]
  rw [← hsum] at h ⊢
  refine ⟨_, toNat_pack_normalize hd h, fun hneg => if_pos ?_, fun hpos => if_neg ?_⟩
  · exact_mod_cast neg_of_mul_neg_left hneg hpow.le
  · exact not_lt.2 (by exact_mod_cast ((mul_pos_iff_of_pos_right hpow).1 hpos).le)

/-- The bits of a sum of finite floats. -/
theorem toNat_pack_add {s t : Sign} {a b n d : Nat} (ha : a < infinity) (hb : b < infinity)
    (hd : 0 < d) (h : (n / d : ℚ) = |signed s a + signed t b|) :
    ∃ u : Sign, (pack Format.binary64 (UnpackedFloat.add Format.binary64 (unpacked s a)
        (unpacked t b))).toNat = u.toBitVec.toNat * 2 ^ 63 + nearest n d ∧
      (signed s a + signed t b < 0 → u = .negative) ∧
      (0 < signed s a + signed t b → u = .positive) := by
  have hsame (u : Sign) {c : Nat} (hc : c < infinity) (hn : (n / d : ℚ) = |signed u c|) :
      (pack Format.binary64 (unpacked u c)).toNat = u.toBitVec.toNat * 2 ^ 63 + nearest n d := by
    rw [abs_signed] at hn
    rw [nearest_of_value hc.le hd hn, toNat_pack_unpacked u hc.le]
  have hsign (u : Sign) (c : Nat) : (signed u c < 0 → u = .negative) ∧
      (0 < signed u c → u = .positive) := by
    have hnonneg : 0 ≤ value c := by
      unfold value
      positivity
    cases u <;> simp [signed, hnonneg.not_gt]
  have hzero (u : Sign) : unpacked u 0 = .zero u := rfl
  rcases Nat.eq_zero_or_pos a with rfl | ha₀
  · rw [signed_zero, zero_add] at h ⊢
    rcases Nat.eq_zero_or_pos b with rfl | hb₀
    · refine ⟨if s == t then s else .positive, ?_, fun hlt => ?_, fun hlt => ?_⟩
      · rw [← hsame _ hb (by rw [h, signed_zero, signed_zero]), hzero, hzero, hzero]
        cases s <;> cases t <;> rfl
      · exact absurd hlt (by rw [signed_zero]; exact lt_irrefl 0)
      · exact absurd hlt (by rw [signed_zero]; exact lt_irrefl 0)
    · refine ⟨t, ?_, hsign t b⟩
      rw [← hsame t hb h, hzero, unpacked_of_pos hb₀ hb]
      rfl
  · rcases Nat.eq_zero_or_pos b with rfl | hb₀
    · rw [signed_zero, add_zero] at h ⊢
      refine ⟨s, ?_, hsign s a⟩
      rw [← hsame s ha h, hzero, unpacked_of_pos ha₀ ha]
      rfl
    · exact toNat_pack_add_of_pos ha₀ ha hb₀ hb hd h

/-- The sum of two finite floats is the float nearest to their exact sum. -/
theorem add_nearest {x y : Float} {n d : Nat} (hx : x.isFinite = true) (hy : y.isFinite = true)
    (hd : 0 < d) (h : (n / d : ℚ) = |signedValue x + signedValue y|) :
    magnitude (x + y) = nearest n d ∧
      (signedValue x + signedValue y < 0 → sign (x + y) = .negative) ∧
      (0 < signedValue x + signedValue y → sign (x + y) = .positive) := by
  rw [isFinite_iff] at hx hy
  obtain ⟨u, hbits, hneg, hpos⟩ := toNat_pack_add hx hy hd h
  have hsum : (x + y).toModel = Float.Model.pack
      (UnpackedFloat.add Format.binary64 x.toModel.unpack y.toModel.unpack) := rfl
  rw [unpack_toModel hx.le, unpack_toModel hy.le] at hsum
  have hword : nearest n d < 2 ^ 63 := (nearest_le_infinity n d).trans_lt (by decide)
  obtain ⟨hsign, hmagnitude⟩ := of_toModel_eq_pack hsum hword hbits
  rw [hsign]
  exact ⟨hmagnitude, hneg, hpos⟩

theorem exists_div_eq_abs (q : ℚ) : ∃ n d : Nat, 0 < d ∧ (n / d : ℚ) = |q| := by
  refine ⟨q.num.natAbs, q.den, q.den_pos, ?_⟩
  have hdiv := congrArg (|·|) (Rat.num_div_den q)
  simp only [abs_div, Nat.abs_cast] at hdiv
  rw [Nat.cast_natAbs, Int.cast_abs, hdiv]

/-- A sum of finite floats is finite unless the exact sum is too large. -/
theorem isFinite_add_iff {x y : Float} (hx : x.isFinite = true) (hy : y.isFinite = true) :
    (x + y).isFinite = true ↔ |signedValue x + signedValue y| < overflow := by
  obtain ⟨n, d, hd, h⟩ := exists_div_eq_abs (signedValue x + signedValue y)
  rw [isFinite_iff, (add_nearest hx hy hd h).1, nearest_lt_infinity_iff hd, h]

theorem isFinite_of_add_unpacked {f g : UnpackedFloat}
    (h : (UnpackedFloat.add Format.binary64 f g).isFinite = true) :
    f.isFinite = true ∧ g.isFinite = true := by
  cases f with
  | notANumber => cases g <;> simp [UnpackedFloat.add, UnpackedFloat.isFinite] at h
  | infinity s =>
    cases g <;> simp only [UnpackedFloat.add] at h <;> try split at h
    all_goals simp [UnpackedFloat.isFinite] at h
  | zero s => cases g <;> simp_all [UnpackedFloat.add, UnpackedFloat.isFinite]
  | finite s m e hm => cases g <;> simp_all [UnpackedFloat.add, UnpackedFloat.isFinite]

/-- No sum with what is not finite is finite. -/
theorem isFinite_of_add {x y : Float} (h : (x + y).isFinite = true) :
    x.isFinite = true ∧ y.isFinite = true :=
  isFinite_of_add_unpacked (isFinite_of_pack (x := x + y) rfl h)

end ReportTally.Binary64
