import ReportTally.Number.Decimal
import ReportTally.Proofs.Json.Number
import ReportTally.Proofs.Number.Addition

/-!
# Decimal numbers

The magnitude word nearest to a decimal number depends on its value alone (`nearest_congr`): the
number of digits before its point does, which decides whether it is cut off, and so does the exact
quotient that is rounded otherwise.

The shortest form of a word reads back as the word (`nearest_shortest`). If some of the numbers that
are tried does, it is chosen because it does, and otherwise the form has all digits and its value is
that of the word.
-/

namespace ReportTally.Decimal

open Binary64 (infinity)

variable {m m' n word : Nat} {e e' : Int}

/-! ## Sizes -/

theorem size_pos (n : Nat) : 0 < size n :=
  Nat.length_toDigits_pos

theorem lt_pow_size (n : Nat) : n < 10 ^ size n :=
  (Nat.length_toDigits_le_iff (by decide) (size_pos n)).1 le_rfl

theorem pow_size_le (hn : 0 < n) : 10 ^ (size n - 1) ≤ n := by
  rcases Nat.eq_zero_or_pos (size n - 1) with hzero | hpos
  · rw [hzero]
    exact hn
  · refine not_lt.1 fun hlt => ?_
    have hle : size n ≤ size n - 1 := (Nat.length_toDigits_le_iff (by decide) hpos).2 hlt
    omega

theorem ten_zpow_le (hm : 0 < m) (e : Int) : (10 : ℚ) ^ (size m + e - 1) ≤ m * 10 ^ e := by
  have hsize := size_pos m
  have hsplit : (size m + e - 1 : Int) = (size m - 1 : Nat) + e := by omega
  rw [hsplit, zpow_add₀ (by norm_num), zpow_natCast]
  gcongr
  exact_mod_cast pow_size_le hm

theorem lt_ten_zpow (m : Nat) (e : Int) : (m * 10 ^ e : ℚ) < 10 ^ (size m + e) := by
  rw [zpow_add₀ (by norm_num), zpow_natCast]
  gcongr
  exact_mod_cast lt_pow_size m

theorem lt_of_ten_zpow_lt {a b : Int} (h : (10 : ℚ) ^ a < 10 ^ b) : a < b :=
  (zpow_lt_zpow_iff_right₀ (by norm_num)).1 h

/-- The value of a number says how many digits it has before the point. -/
theorem size_add_eq (hm : 0 < m) (hm' : 0 < m') (h : (m * 10 ^ e : ℚ) = m' * 10 ^ e') :
    size m + e = size m' + e' := by
  have hlow := lt_of_ten_zpow_lt ((ten_zpow_le hm e).trans_lt (h ▸ lt_ten_zpow m' e'))
  have hhigh := lt_of_ten_zpow_lt ((ten_zpow_le hm' e').trans_lt (h ▸ lt_ten_zpow m e))
  omega

/-! ## The nearest word -/

theorem pow_ten_pos (k : Nat) : 0 < Nat.pow 10 k :=
  Nat.pow_pos (by decide)

/-- A decimal number as a quotient of two naturals. -/
theorem div_scaled (m : Nat) (e : Int) :
    ((m * Nat.pow 10 e.toNat : Nat) : ℚ) / (Nat.pow 10 (-e).toNat : Nat) = m * 10 ^ e := by
  have hpow : (10 : ℚ) ^ e = 10 ^ e.toNat / 10 ^ (-e).toNat := by
    simpa using Binary64.zpow_eq_div (by decide : 0 < 10) e
  simp only [Nat.pow_eq, Nat.cast_mul, Nat.cast_pow, Nat.cast_ofNat]
  rw [hpow, mul_div_assoc]

theorem nearest_zero (e : Int) : nearest 0 e = 0 :=
  if_pos rfl

/-- Numbers of the same value have the same nearest word. -/
theorem nearest_congr (h : (m * 10 ^ e : ℚ) = m' * 10 ^ e') : nearest m e = nearest m' e' := by
  have hpos (e : Int) : (0 : ℚ) < 10 ^ e := by positivity
  rcases Nat.eq_zero_or_pos m with rfl | hm
  · have hzero : (m' : ℚ) * 10 ^ e' = 0 := by rw [← h, Nat.cast_zero, zero_mul]
    obtain rfl : m' = 0 := by simpa [(hpos e').ne'] using hzero
    rw [nearest_zero, nearest_zero]
  · have hm' : 0 < m' := by
      refine Nat.pos_of_ne_zero fun hzero => ?_
      rw [hzero, Nat.cast_zero, zero_mul] at h
      exact (mul_pos (by exact_mod_cast hm) (hpos e)).ne' h
    have hsame : Binary64.nearest (m * Nat.pow 10 e.toNat) (Nat.pow 10 (-e).toNat) =
        Binary64.nearest (m' * Nat.pow 10 e'.toNat) (Nat.pow 10 (-e').toNat) := by
      have hquotient := (div_scaled m e).trans (h.trans (div_scaled m' e').symm)
      exact le_antisymm
        (Binary64.nearest_mono (pow_ten_pos _) (pow_ten_pos _) hquotient.le)
        (Binary64.nearest_mono (pow_ten_pos _) (pow_ten_pos _) hquotient.ge)
    rw [nearest, nearest, if_neg hm.ne', if_neg hm'.ne', size_add_eq hm hm' h, hsame]

/-- A number that is not cut off is rounded. -/
theorem nearest_of_size (hm : 0 < m) (hlow : -400 ≤ size m + e) (hhigh : size m + e ≤ 310) :
    nearest m e = Binary64.nearest (m * Nat.pow 10 e.toNat) (Nat.pow 10 (-e).toNat) := by
  rw [nearest, if_neg hm.ne', if_neg (by omega), if_neg (by omega)]

/-- A number whose word is neither zero nor infinity is not cut off. -/
theorem size_of_nearest (hpos : 0 < nearest m e) (hfin : nearest m e < infinity) :
    -400 ≤ size m + e ∧ size m + e ≤ 310 := by
  unfold nearest at hpos hfin
  split_ifs at hpos hfin with hm hhigh hlow
  · exact absurd hpos (lt_irrefl 0)
  · exact absurd hfin (lt_irrefl _)
  · exact absurd hpos (lt_irrefl 0)
  · omega

/-! ## Words as decimal numbers -/

theorem value_lt (h : word < infinity) : Binary64.value word < 10 ^ (309 : Int) := by
  have hscale : Binary64.scale infinity = (2 ^ 52, ((972 : Nat) : Int)) := by
    decide +kernel
  have hpow : 2 ^ 52 * 2 ^ 972 < 10 ^ 309 := by decide +kernel
  calc Binary64.value word
      ≤ Binary64.value infinity := Binary64.value_le_value h.le
    _ = (2 ^ 52 * 2 ^ 972 : Nat) := by
        rw [Binary64.value, hscale, zpow_natCast, Nat.cast_mul, Nat.cast_pow 2 972]
        rfl
    _ < (10 ^ 309 : Nat) := by exact_mod_cast hpow
    _ = 10 ^ (309 : Int) := by
        rw [Nat.cast_pow, ← zpow_natCast]
        rfl

theorem lt_value (h : 0 < word) : (10 : ℚ) ^ (-324 : Int) < Binary64.value word := by
  have hscale : Binary64.scale 1 = (1, -((1074 : Nat) : Int)) := by decide +kernel
  have hpow : 2 ^ 1074 < 10 ^ 324 := by decide +kernel
  calc (10 : ℚ) ^ (-324 : Int)
      = ((10 ^ 324 : Nat) : ℚ)⁻¹ := by
        rw [Nat.cast_pow, ← zpow_natCast, ← zpow_neg]
        rfl
    _ < ((2 ^ 1074 : Nat) : ℚ)⁻¹ := by
        gcongr
    _ = Binary64.value 1 := by
        rw [Binary64.value, hscale, zpow_neg, zpow_natCast, Nat.cast_one, one_mul, Nat.cast_pow]
        rfl
    _ ≤ Binary64.value word := Binary64.value_le_value h

/-- A number with the value of a word reads back as the word. -/
theorem nearest_of_value_eq (hpos : 0 < word) (hfin : word < infinity)
    (h : (m * 10 ^ e : ℚ) = Binary64.value word) : nearest m e = word := by
  have hm : 0 < m := by
    refine Nat.pos_of_ne_zero fun hzero => ?_
    rw [hzero, Nat.cast_zero, zero_mul] at h
    exact (Binary64.value_pos hpos).ne h
  have hlow := lt_of_ten_zpow_lt ((lt_value hpos).trans (h ▸ lt_ten_zpow m e))
  have hhigh := lt_of_ten_zpow_lt ((ten_zpow_le hm e).trans_lt (h ▸ value_lt hfin))
  rw [nearest_of_size hm (by omega) (by omega)]
  exact Binary64.nearest_of_value hfin.le (pow_ten_pos _) ((div_scaled m e).trans h)

/-- The value of a form. -/
def Form.value (f : Form) : ℚ :=
  f.digits * 10 ^ f.exponent

theorem value_inFull (word : Nat) : (inFull word).value = Binary64.value word := by
  unfold inFull Form.value Binary64.value
  dsimp only
  split_ifs with he
  · obtain ⟨k, hk⟩ := Int.eq_ofNat_of_zero_le he
    rw [hk]
    simp [Nat.pow_eq]
  · obtain ⟨k, hk⟩ : ∃ k : Nat, (Binary64.scale word).2 = -k :=
      ⟨(-(Binary64.scale word).2).toNat, by omega⟩
    have hten : (5 : ℚ) ^ k * 10 ^ (-k : Int) = 2 ^ (-k : Int) := by
      rw [zpow_neg, zpow_neg, zpow_natCast, zpow_natCast, (by norm_num : (10 : ℚ) = 5 * 2),
        mul_pow, mul_inv, mul_inv_cancel_left₀ (by positivity)]
    rw [hk, neg_neg, Int.toNat_natCast, Nat.pow_eq, Nat.cast_mul, Nat.cast_pow, Nat.cast_ofNat,
      mul_assoc, hten]

/-- The shortest form of a word reads back as the word. -/
theorem nearest_shortest (hpos : 0 < word) (hfin : word < infinity) :
    nearest (shortest word).digits (shortest word).exponent = word := by
  unfold shortest
  cases hfind : (List.range 17).findSome? fun i => ofCount? word (i + 1) with
  | some f =>
    obtain ⟨i, -, hi⟩ := List.exists_of_findSome?_eq_some hfind
    exact Json.nearest_of_ofCount? hi
  | none => exact nearest_of_value_eq hpos hfin (value_inFull word)

end ReportTally.Decimal
