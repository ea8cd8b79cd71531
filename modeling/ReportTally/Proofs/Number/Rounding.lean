import Mathlib.Algebra.Order.Field.Power
import Mathlib.Data.Rat.Cast.Order
import Mathlib.Tactic.Linarith
import Mathlib.Tactic.NormNum
import Mathlib.Tactic.Ring
import ReportTally.Number.Binary64

/-!
# Rounding to binary64

`Binary64.nearest` rounds in two steps: it chooses a power of two by the size of the quotient, and
rounds the quotient to a multiple of it. Both steps depend on the exact quotient alone, as does the
result, and it grows with the quotient (`nearest_mono`). The power is determined by where the
quotient lies (`nearest_eq_of_exponent`), so any computation that finds it and rounds to the nearest
multiple of it gives the same word.

`value` is the exact value of a magnitude word. Words are ordered as their values are, and a larger
word is larger by at least one unit of the smaller one (`succ_unit_le_value`).
-/

namespace ReportTally.Binary64

/-! ## The nearest integer -/

/-- The integers from which on a quotient is not rounded up: it lies below their half, or just at
the half of an even one. -/
theorem roundQuotient_le_iff {n d : Nat} (hd : 0 < d) (k : Nat) :
    roundQuotient n d ≤ k ↔
      2 * n < (2 * k + 1) * d ∨ 2 * n = (2 * k + 1) * d ∧ k % 2 = 0 := by
  have hn := Nat.div_add_mod n d
  have hr := Nat.mod_lt n hd
  have hexpand : (2 * k + 1) * d = 2 * (d * k) + d := by ring
  rw [hexpand]
  unfold roundQuotient
  rcases Nat.lt_trichotomy (n / d) k with hlt | heq | hgt
  · have hmul : d * (n / d) + d ≤ d * k := Nat.mul_le_mul_left d hlt
    dsimp only
    split_ifs <;> omega
  · rw [heq] at hn
    dsimp only
    split_ifs <;> omega
  · have hmul : d * k + d ≤ d * (n / d) := Nat.mul_le_mul_left d hgt
    dsimp only
    split_ifs <;> omega

theorem roundQuotient_mono {n d n' d' : Nat} (hd : 0 < d) (hd' : 0 < d')
    (h : (n / d : ℚ) ≤ n' / d') : roundQuotient n d ≤ roundQuotient n' d' := by
  have hle : n * d' ≤ n' * d := by
    rw [div_le_div_iff₀ (by exact_mod_cast hd) (by exact_mod_cast hd')] at h
    exact_mod_cast h
  rw [roundQuotient_le_iff hd]
  generalize hk : roundQuotient n' d' = k
  rcases (roundQuotient_le_iff hd' k).1 hk.le with hlt | ⟨heq, heven⟩
  · left
    refine Nat.lt_of_mul_lt_mul_right (a := d') ?_
    calc 2 * n * d' = 2 * (n * d') := by ring
      _ ≤ 2 * (n' * d) := Nat.mul_le_mul_left 2 hle
      _ = 2 * n' * d := by ring
      _ < (2 * k + 1) * d' * d := Nat.mul_lt_mul_of_pos_right hlt hd
      _ = (2 * k + 1) * d * d' := by ring
  · have hmul : 2 * n ≤ (2 * k + 1) * d := by
      refine Nat.le_of_mul_le_mul_right ?_ hd'
      calc 2 * n * d' = 2 * (n * d') := by ring
        _ ≤ 2 * (n' * d) := Nat.mul_le_mul_left 2 hle
        _ = 2 * n' * d := by ring
        _ = (2 * k + 1) * d * d' := by rw [heq]; ring
    omega

theorem roundQuotient_congr {n d n' d' : Nat} (hd : 0 < d) (hd' : 0 < d')
    (h : (n / d : ℚ) = n' / d') : roundQuotient n d = roundQuotient n' d' :=
  le_antisymm (roundQuotient_mono hd hd' h.le) (roundQuotient_mono hd' hd h.ge)

theorem roundQuotient_one (k : Nat) : roundQuotient k 1 = k := by
  simp [roundQuotient, Nat.mod_one]

theorem roundQuotient_le {n d k : Nat} (hd : 0 < d) (h : (n / d : ℚ) ≤ k) :
    roundQuotient n d ≤ k := by
  rw [← roundQuotient_one k]
  exact roundQuotient_mono hd one_pos (by simpa using h)

theorem le_roundQuotient {n d k : Nat} (hd : 0 < d) (h : (k : ℚ) ≤ n / d) :
    k ≤ roundQuotient n d := by
  rw [← roundQuotient_one k]
  exact roundQuotient_mono one_pos hd (by simpa using h)

/-! ## The power of two -/

/-- A power as a quotient of two naturals. -/
theorem zpow_eq_div {b : Nat} (hb : 0 < b) (e : Int) :
    (b : ℚ) ^ e = b ^ e.toNat / b ^ (-e).toNat := by
  have hne : (b : ℚ) ≠ 0 := by exact_mod_cast hb.ne'
  rw [eq_div_iff (pow_ne_zero _ hne), ← zpow_natCast, ← zpow_natCast, ← zpow_add₀ hne]
  congr 1
  omega

/-- A quotient of two naturals after a shift by a power of two. -/
theorem div_shifted (n d : Nat) (e : Int) :
    ((n * Nat.pow 2 (-e).toNat : Nat) : ℚ) / (d * Nat.pow 2 e.toNat : Nat) = n / d * 2 ^ (-e) := by
  have hpow : (2 : ℚ) ^ (-e) = 2 ^ (-e).toNat / 2 ^ e.toNat := by
    simpa using zpow_eq_div two_pos (-e)
  simp only [Nat.pow_eq, Nat.cast_mul, Nat.cast_pow, Nat.cast_ofNat]
  rw [hpow, div_mul_div_comm]

theorem two_zpow_le_div_iff {n d : Nat} (hd : 0 < d) (k : Int) :
    (2 : ℚ) ^ k ≤ n / d ↔ d * Nat.pow 2 k.toNat ≤ n * Nat.pow 2 (-k).toNat := by
  have hd' : (0 : ℚ) < (d * Nat.pow 2 k.toNat : Nat) := by
    simp only [Nat.pow_eq]
    positivity
  have hpos : (0 : ℚ) < 2 ^ (-k) := by positivity
  rw [← @Nat.cast_le ℚ, ← one_le_div₀ hd', div_shifted, ← mul_le_mul_iff_left₀ hpos,
    ← zpow_add₀ (by norm_num), add_neg_cancel, zpow_zero]

theorem two_zpow_log2_le {n : Nat} (hn : 0 < n) : (2 : ℚ) ^ (n.log2 : Int) ≤ n := by
  rw [zpow_natCast]
  exact_mod_cast Nat.log2_self_le hn.ne'

theorem lt_two_zpow_log2 (n : Nat) : (n : ℚ) < 2 ^ ((n.log2 : Int) + 1) := by
  exact_mod_cast (Nat.lt_log2_self (n := n))

theorem log2Quotient_bounds {n d : Nat} (hn : 0 < n) (hd : 0 < d) :
    (2 : ℚ) ^ log2Quotient n d ≤ n / d ∧ (n / d : ℚ) < 2 ^ (log2Quotient n d + 1) := by
  have hd' : (0 : ℚ) < d := by exact_mod_cast hd
  have htwo : (2 : ℚ) ≠ 0 := by norm_num
  have hlow : (2 : ℚ) ^ ((n.log2 : Int) - d.log2 - 1) ≤ n / d := by
    rw [le_div_iff₀ hd']
    calc (2 : ℚ) ^ ((n.log2 : Int) - d.log2 - 1) * d
        ≤ 2 ^ ((n.log2 : Int) - d.log2 - 1) * 2 ^ ((d.log2 : Int) + 1) := by
          gcongr
          exact (lt_two_zpow_log2 d).le
      _ = 2 ^ (n.log2 : Int) := by
          rw [← zpow_add₀ htwo]
          congr 1
          omega
      _ ≤ n := two_zpow_log2_le hn
  have hhigh : (n / d : ℚ) < 2 ^ ((n.log2 : Int) - d.log2 + 1) := by
    rw [div_lt_iff₀ hd']
    calc (n : ℚ) < 2 ^ ((n.log2 : Int) + 1) := lt_two_zpow_log2 n
      _ = 2 ^ ((n.log2 : Int) - d.log2 + 1) * 2 ^ (d.log2 : Int) := by
          rw [← zpow_add₀ htwo]
          congr 1
          omega
      _ ≤ 2 ^ ((n.log2 : Int) - d.log2 + 1) * d := by
          gcongr
          exact two_zpow_log2_le hd
  have hsplit := two_zpow_le_div_iff (n := n) hd ((n.log2 : Int) - d.log2)
  unfold log2Quotient
  dsimp only
  split_ifs with h
  · exact ⟨hsplit.2 h, hhigh⟩
  · refine ⟨hlow, ?_⟩
    rw [sub_add_cancel]
    exact not_le.1 fun hle => h (hsplit.1 hle)

/-- Powers of two on both sides of a quotient determine its logarithm. -/
theorem log2Quotient_eq {n d : Nat} (hn : 0 < n) (hd : 0 < d) {k : Int}
    (hlow : (2 : ℚ) ^ k ≤ n / d) (hhigh : (n / d : ℚ) < 2 ^ (k + 1)) : log2Quotient n d = k := by
  obtain ⟨hlow', hhigh'⟩ := log2Quotient_bounds hn hd
  have htwo : (1 : ℚ) < 2 := by norm_num
  have h₁ := (zpow_lt_zpow_iff_right₀ htwo).1 (hlow.trans_lt hhigh')
  have h₂ := (zpow_lt_zpow_iff_right₀ htwo).1 (hlow'.trans_lt hhigh)
  omega

/-! ## The nearest word -/

/-- The exponent to which a quotient is rounded. -/
def exponentFor (n d : Nat) : Int :=
  max (log2Quotient n d - 52) leastExponent

/-- A quotient in units of `2 ^ e`, rounded. -/
def unitsFor (n d : Nat) (e : Int) : Nat :=
  roundQuotient (n * Nat.pow 2 (-e).toNat) (d * Nat.pow 2 e.toNat)

theorem nearest_le_infinity (n d : Nat) : nearest n d ≤ infinity := by
  unfold nearest
  split_ifs
  · exact Nat.zero_le _
  · exact min_le_right _ _

theorem nearest_of_pos {n : Nat} (hn : 0 < n) (d : Nat) :
    nearest n d = min ((exponentFor n d - leastExponent).toNat * hidden +
      unitsFor n d (exponentFor n d)) infinity := by
  rw [nearest, if_neg hn.ne']
  rfl

theorem shifted_pos {d : Nat} (hd : 0 < d) (e : Int) : 0 < d * Nat.pow 2 e.toNat := by
  simp only [Nat.pow_eq]
  positivity

theorem unitsFor_mono {n d n' d' : Nat} (hd : 0 < d) (hd' : 0 < d') (h : (n / d : ℚ) ≤ n' / d')
    (e : Int) : unitsFor n d e ≤ unitsFor n' d' e := by
  refine roundQuotient_mono (shifted_pos hd e) (shifted_pos hd' e) ?_
  rw [div_shifted, div_shifted]
  gcongr

theorem unitsFor_le {n d : Nat} (hd : 0 < d) {e : Int} {k : Nat} (h : (n / d : ℚ) ≤ k * 2 ^ e) :
    unitsFor n d e ≤ k := by
  refine roundQuotient_le (shifted_pos hd e) ?_
  rw [div_shifted, zpow_neg, ← div_eq_mul_inv, div_le_iff₀ (by positivity)]
  exact h

theorem le_unitsFor {n d : Nat} (hd : 0 < d) {e : Int} {k : Nat} (h : (k : ℚ) * 2 ^ e ≤ n / d) :
    k ≤ unitsFor n d e := by
  refine le_roundQuotient (shifted_pos hd e) ?_
  rw [div_shifted, zpow_neg, ← div_eq_mul_inv, le_div_iff₀ (by positivity)]
  exact h

theorem hidden_eq : hidden = 2 ^ 52 := by
  decide

theorem zpow_add_natCast (e : Int) (k : Nat) : (2 : ℚ) ^ (e + k) = (2 ^ k : Nat) * 2 ^ e := by
  rw [zpow_add₀ (by norm_num), zpow_natCast, mul_comm]
  norm_cast

/-- The exponent at which a quotient has 53 digits before the point, or the least exponent. -/
theorem exponentFor_eq {n d : Nat} (hn : 0 < n) (hd : 0 < d) {e : Int} (he : leastExponent ≤ e)
    (hhigh : (n / d : ℚ) < 2 ^ (e + 53))
    (hlow : e = leastExponent ∨ (2 : ℚ) ^ (e + 52) ≤ n / d) : exponentFor n d = e := by
  unfold exponentFor
  rcases hlow with rfl | hlow
  · have hlog : log2Quotient n d < leastExponent + 53 :=
      (zpow_lt_zpow_iff_right₀ (by norm_num : (1 : ℚ) < 2)).1
        ((log2Quotient_bounds hn hd).1.trans_lt hhigh)
    omega
  · rw [log2Quotient_eq hn hd hlow (by rw [add_assoc]; exact hhigh)]
    omega

theorem exponentFor_bounds {n d : Nat} (hn : 0 < n) (hd : 0 < d) :
    leastExponent ≤ exponentFor n d ∧ (n / d : ℚ) < 2 ^ (exponentFor n d + 53) ∧
      (exponentFor n d = leastExponent ∨ (2 : ℚ) ^ (exponentFor n d + 52) ≤ n / d) := by
  obtain ⟨hlow, hhigh⟩ := log2Quotient_bounds hn hd
  have htwo : (1 : ℚ) ≤ 2 := by norm_num
  unfold exponentFor
  refine ⟨le_max_right _ _, hhigh.trans_le (zpow_le_zpow_right₀ htwo (by omega)), ?_⟩
  rcases le_total (log2Quotient n d - 52) leastExponent with h | h
  · exact Or.inl (max_eq_right h)
  · refine Or.inr ((zpow_le_zpow_right₀ htwo ?_).trans hlow)
    rw [max_eq_left h]
    omega

/-- The nearest word, by an exponent that fits the quotient. -/
theorem nearest_eq_of_exponent {n d : Nat} (hn : 0 < n) (hd : 0 < d) {e : Int}
    (he : leastExponent ≤ e) (hhigh : (n / d : ℚ) < 2 ^ (e + 53))
    (hlow : e = leastExponent ∨ (2 : ℚ) ^ (e + 52) ≤ n / d) :
    nearest n d = min ((e - leastExponent).toNat * hidden + unitsFor n d e) infinity := by
  rw [nearest_of_pos hn, exponentFor_eq hn hd he hhigh hlow]

/-- The nearest word grows with the quotient. -/
theorem nearest_mono {n d n' d' : Nat} (hd : 0 < d) (hd' : 0 < d')
    (h : (n / d : ℚ) ≤ n' / d') : nearest n d ≤ nearest n' d' := by
  rcases Nat.eq_zero_or_pos n with rfl | hn
  · exact Nat.zero_le _
  have hpos : (0 : ℚ) < n / d := div_pos (by exact_mod_cast hn) (by exact_mod_cast hd)
  have hn' : 0 < n' := by
    rcases Nat.eq_zero_or_pos n' with rfl | hn'
    · rw [Nat.cast_zero, zero_div] at h
      exact absurd h (not_le.2 hpos)
    · exact hn'
  obtain ⟨he, hhigh, hlow⟩ := exponentFor_bounds hn hd
  obtain ⟨he', hhigh', hlow'⟩ := exponentFor_bounds hn' hd'
  rw [nearest_of_pos hn, nearest_of_pos hn']
  refine min_le_min_right _ ?_
  -- With one exponent the numbers of units decide, and otherwise the larger exponent alone.
  rcases lt_trichotomy (exponentFor n d) (exponentFor n' d') with hlt | heq | hgt
  · have hsmall : unitsFor n d (exponentFor n d) ≤ 2 ^ 53 :=
      unitsFor_le hd (by rw [← zpow_add_natCast]; exact hhigh.le)
    have hlarge : 2 ^ 52 ≤ unitsFor n' d' (exponentFor n' d') := by
      refine le_unitsFor hd' ?_
      rw [← zpow_add_natCast]
      exact hlow'.resolve_left (by omega)
    rw [hidden_eq]
    omega
  · rw [heq]
    exact Nat.add_le_add_left (unitsFor_mono hd hd' h _) _
  · have hsame : (2 : ℚ) ^ (exponentFor n d + 52) ≤ n / d := hlow.resolve_left (by omega)
    have hexp := (zpow_lt_zpow_iff_right₀ (by norm_num : (1 : ℚ) < 2)).1
      ((hsame.trans h).trans_lt hhigh')
    omega

/-! ## The value of a word -/

/-- The exact value of a magnitude word that is a number. -/
def value (word : Nat) : ℚ :=
  (scale word).1 * 2 ^ (scale word).2

theorem scale_of_lt {word : Nat} (h : word < 2 ^ 52) : scale word = (word, leastExponent) := by
  rw [scale, hidden_eq, if_pos (Nat.div_eq_of_lt h)]

theorem scale_of_le {word : Nat} (h : 2 ^ 52 ≤ word) :
    scale word = (2 ^ 52 + word % 2 ^ 52, leastExponent + (word / 2 ^ 52 - 1 : Nat)) := by
  have hne : word / 2 ^ 52 ≠ 0 := (Nat.div_pos h (by norm_num)).ne'
  rw [scale, hidden_eq, if_neg hne]

/-- A magnitude word as its exponent and a multiple of it. -/
theorem scale_bounds (word : Nat) :
    leastExponent ≤ (scale word).2 ∧ (scale word).1 < 2 ^ 53 ∧
      ((scale word).2 = leastExponent ∨ 2 ^ 52 ≤ (scale word).1) ∧
      ((scale word).2 - leastExponent).toNat * hidden + (scale word).1 = word := by
  rw [hidden_eq]
  rcases Nat.lt_or_ge word (2 ^ 52) with h | h
  · rw [scale_of_lt h]
    dsimp only
    refine ⟨le_refl _, ?_, Or.inl rfl, ?_⟩ <;> omega
  · rw [scale_of_le h]
    dsimp only
    refine ⟨?_, ?_, Or.inr ?_, ?_⟩ <;> omega

theorem scale_pos {word : Nat} (h : 0 < word) : 0 < (scale word).1 := by
  obtain ⟨-, -, hnormal, hword⟩ := scale_bounds word
  rcases hnormal with he | hm
  · rw [he, sub_self, Int.toNat_zero, zero_mul, zero_add] at hword
    omega
  · omega

theorem value_pos {word : Nat} (h : 0 < word) : 0 < value word := by
  have := scale_pos h
  unfold value
  positivity

/-- A larger word is larger by at least a unit. -/
theorem succ_unit_le_value {a b : Nat} (h : a < b) :
    (((scale a).1 + 1 : Nat) : ℚ) * 2 ^ (scale a).2 ≤ value b := by
  obtain ⟨he, hm, hnormal, hword⟩ := scale_bounds a
  obtain ⟨he', hm', hnormal', hword'⟩ := scale_bounds b
  rw [hidden_eq] at hword hword'
  unfold value
  rcases lt_trichotomy (scale a).2 (scale b).2 with hlt | heq | hgt
  · have hb : 2 ^ 52 ≤ (scale b).1 := hnormal'.resolve_left (by omega)
    calc (((scale a).1 + 1 : Nat) : ℚ) * 2 ^ (scale a).2
        ≤ (2 ^ 53 : Nat) * 2 ^ (scale a).2 := by gcongr; omega
      _ = (2 ^ 52 : Nat) * 2 ^ ((scale a).2 + (1 : Nat)) := by
          rw [zpow_add_natCast]
          push_cast
          ring
      _ ≤ (scale b).1 * 2 ^ (scale b).2 := by
          gcongr
          · norm_num
          · push_cast
            omega
  · have hunits : (scale a).1 + 1 ≤ (scale b).1 := by
      rw [heq] at hword
      omega
    rw [heq]
    gcongr
  · have ha : 2 ^ 52 ≤ (scale a).1 := hnormal.resolve_left (by omega)
    omega

theorem strictMono_value : StrictMono value := by
  intro a b h
  refine lt_of_lt_of_le ?_ (succ_unit_le_value h)
  unfold value
  gcongr
  omega

theorem value_le_value {a b : Nat} (h : a ≤ b) : value a ≤ value b :=
  strictMono_value.monotone h

end ReportTally.Binary64
