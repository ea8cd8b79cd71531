import ReportTally.Proofs.Number.Addition
import ReportTally.Proofs.Number.Ratio

/-!
# Sums and ratios that are finite

A sum from left to right is finite just if no addition on the way is too large
(`isFinite_total_iff`): what has left the range never comes back. The same holds of a sum of such
sums (`isFinite_total_map_total_iff`).

A quotient by a count that is not zero is finite just if its numerator is, as no such count is less
than one (`isFinite_div_iff`). So a ratio is finite unless its numerator is not and its denominator
is not zero (`isFinite_ratio_ofCounter_iff`, `isFinite_ratio_ofNat_iff`).
-/

namespace ReportTally.Binary64

open Float.Model (UnpackedFloat Format)
open Float.Model.UnpackedFloat

/-! ## Sums -/

/-- The sum of floats, from left to right. -/
def total (xs : List Float) : Float :=
  xs.foldl (· + ·) 0

/-- No addition from left to right is too large, if the sum so far is `x`. -/
def InRangeFrom : Float → List Float → Prop
  | _, [] => True
  | x, y :: ys => |signedValue x + signedValue y| < overflow ∧ InRangeFrom (x + y) ys

/-- No addition from left to right is too large. -/
def InRange (xs : List Float) : Prop :=
  InRangeFrom 0 xs

theorem isFinite_of_foldl {xs : List Float} {x : Float}
    (h : (xs.foldl (· + ·) x).isFinite = true) :
    x.isFinite = true ∧ ∀ y ∈ xs, y.isFinite = true := by
  induction xs generalizing x with
  | nil => exact ⟨h, by simp⟩
  | cons y ys ih =>
    obtain ⟨hsum, hys⟩ := ih h
    obtain ⟨hx, hy⟩ := isFinite_of_add hsum
    exact ⟨hx, List.forall_mem_cons.2 ⟨hy, hys⟩⟩

theorem isFinite_foldl_iff {xs : List Float} (h : ∀ y ∈ xs, y.isFinite = true) {x : Float}
    (hx : x.isFinite = true) :
    (xs.foldl (· + ·) x).isFinite = true ↔ InRangeFrom x xs := by
  induction xs generalizing x with
  | nil => exact iff_of_true hx trivial
  | cons y ys ih =>
    obtain ⟨hy, hys⟩ := List.forall_mem_cons.1 h
    rw [List.foldl_cons, InRangeFrom, ← isFinite_add_iff hx hy]
    constructor
    · intro hsum
      have hstep := (isFinite_of_foldl hsum).1
      exact ⟨hstep, (ih hys hstep).1 hsum⟩
    · rintro ⟨hstep, hrest⟩
      exact (ih hys hstep).2 hrest

theorem isFinite_zero : (0 : Float).isFinite = true := by
  rfl

/-- A sum of finite floats is finite just if no addition is too large. -/
theorem isFinite_total_iff {xs : List Float} (h : ∀ y ∈ xs, y.isFinite = true) :
    (total xs).isFinite = true ↔ InRange xs :=
  isFinite_foldl_iff h isFinite_zero

/-- A sum of sums of finite floats is finite just if no addition is too large, neither within the
sums nor between them. -/
theorem isFinite_total_map_total_iff {xss : List (List Float)}
    (h : ∀ xs ∈ xss, ∀ y ∈ xs, y.isFinite = true) :
    (total (xss.map total)).isFinite = true ↔
      (∀ xs ∈ xss, InRange xs) ∧ InRange (xss.map total) := by
  have hparts : (∀ y ∈ xss.map total, y.isFinite = true) ↔ ∀ xs ∈ xss, InRange xs := by
    rw [List.forall_mem_map]
    exact forall₂_congr fun xs hxs => isFinite_total_iff (h xs hxs)
  rw [← hparts]
  constructor
  · intro hsum
    have hall := (isFinite_of_foldl hsum).2
    exact ⟨hall, (isFinite_total_iff hall).1 hsum⟩
  · rintro ⟨hall, hrange⟩
    exact (isFinite_total_iff hall).2 hrange

/-! ## Floats by sign and word -/

theorem toBitVec_ofSign_toNat (negative : Bool) {word : Nat} (hw : word ≤ infinity) :
    (UInt64.ofNat (if negative then signBit + word else word)).toBitVec.toNat =
      (if negative then Sign.negative else .positive).toBitVec.toNat * 2 ^ 63 + word := by
  have hsign : signBit = 2 ^ 63 := by decide
  have hinf := infinity_eq
  rw [UInt64.toNat_toBitVec, UInt64.toNat_ofNat', hsign]
  cases negative <;> simp [Sign.toBitVec] <;> omega

/-- A float that is given by a sign and a word has just these. -/
theorem sign_magnitude_ofSign (negative : Bool) {word : Nat} (hw : word ≤ infinity) :
    sign (ofSign negative word) = (if negative then .negative else .positive) ∧
      magnitude (ofSign negative word) = word := by
  have hmodel : (ofSign negative word).toModel = Float.Model.pack
      (unpacked (if negative then .negative else .positive) word) := by
    rw [← unpack_eq hw (toBitVec_ofSign_toNat negative hw)]
    rfl
  exact of_toModel_eq_pack hmodel (hw.trans_lt (by decide)) (toNat_pack_unpacked _ hw)

theorem magnitude_ofCounter (c : Counter) : magnitude (ofCounter c) = nearest c.toInt.natAbs 1 :=
  (sign_magnitude_ofSign _ (nearest_le_infinity _ _)).2

theorem magnitude_ofNat (n : Nat) : magnitude (ofNat n) = nearest n 1 :=
  (sign_magnitude_ofSign _ (nearest_le_infinity _ _)).2

theorem isFinite_ofCounter (c : Counter) : (ofCounter c).isFinite = true := by
  rw [isFinite_iff, magnitude_ofCounter]
  exact nearest_lt_infinity (natAbs_lt_of_counter c)

theorem beq_zero_iff {x : Float} (h : magnitude x ≤ infinity) :
    (x == 0) = true ↔ magnitude x = 0 := by
  change (x.toModel.unpack.compare (0 : Float).toModel.unpack == some .eq) = true ↔ _
  rw [zero_eq_ofSign, unpack_ofSign (Nat.zero_le _), unpack_toModel h]
  have hzero : unpacked .positive 0 = .zero .positive := rfl
  rw [hzero]
  unfold unpacked
  split_ifs with hpos hlt
  · exact iff_of_false (by cases sign x <;> exact Bool.false_ne_true) hpos.ne'
  · exact iff_of_false (by cases sign x <;> exact Bool.false_ne_true) hpos.ne'
  · exact iff_of_true rfl (by omega)

/-- A float is below zero if it has the sign and is not a zero. -/
theorem lt_zero_iff {x : Float} (h : magnitude x ≤ infinity) :
    x < 0 ↔ sign x = .negative ∧ 0 < magnitude x := by
  change decide (x.toModel.unpack.compare (0 : Float).toModel.unpack == some .lt) = true ↔ _
  rw [zero_eq_ofSign, unpack_ofSign (Nat.zero_le _), unpack_toModel h, decide_eq_true_eq]
  have hzero : unpacked .positive 0 = .zero .positive := rfl
  rw [hzero]
  unfold unpacked
  split_ifs with hpos hlt
  · cases sign x <;> simp [UnpackedFloat.compare, hpos]
  · cases sign x <;> simp [UnpackedFloat.compare, hpos]
  · cases sign x <;> simp [UnpackedFloat.compare, hpos]

theorem lt_zero_iff_signedValue {x : Float} (h : x.isFinite = true) :
    x < 0 ↔ signedValue x < 0 := by
  rw [isFinite_iff] at h
  rw [lt_zero_iff h.le, signedValue]
  rcases Nat.eq_zero_or_pos (magnitude x) with hzero | hpos
  · rw [hzero, signed_zero]
    simp
  · have hvalue := value_pos hpos
    cases sign x with
    | negative => simpa [signed, hpos] using hvalue
    | positive => simpa [signed] using hvalue.le

/-- A sum of finite floats that are not below zero is not below zero. -/
theorem not_add_lt_zero {x y : Float} (hsum : (x + y).isFinite = true) (hx : ¬x < 0)
    (hy : ¬y < 0) : ¬x + y < 0 := by
  obtain ⟨hx', hy'⟩ := isFinite_of_add hsum
  rw [lt_zero_iff_signedValue hx', not_lt] at hx
  rw [lt_zero_iff_signedValue hy', not_lt] at hy
  obtain ⟨n, d, hd, h⟩ := exists_div_eq_abs (signedValue x + signedValue y)
  obtain ⟨hmagnitude, -, hsign⟩ := add_nearest hx' hy' hd h
  rw [lt_zero_iff ((isFinite_iff _).1 hsum).le, not_and]
  intro hnegative
  rcases (add_nonneg hx hy).eq_or_lt with hzero | hpos
  · rw [← hzero, abs_zero, ← value_zero] at h
    rw [hmagnitude, nearest_of_value (Nat.zero_le _) hd h]
    exact lt_irrefl 0
  · rw [hsign hpos] at hnegative
    cases hnegative

theorem not_ofNat_lt_zero (n : Nat) : ¬ofNat n < 0 := by
  have hword := sign_magnitude_ofSign false (nearest_le_infinity n 1)
  rw [lt_zero_iff (magnitude_ofNat n ▸ nearest_le_infinity n 1)]
  rintro ⟨hsign, -⟩
  rw [ofNat, hword.1] at hsign
  cases hsign

/-- The largest float is half a unit away from what is too large, so no 64-bit number takes a finite
float there. -/
theorem isFinite_ofNat_add {n : Nat} (hn : n < 2 ^ 64) {x : Float} (hx : x.isFinite = true) :
    (ofNat n + x).isFinite = true := by
  have hnat : (ofNat n).isFinite = true := by
    rw [isFinite_iff, magnitude_ofNat]
    exact nearest_lt_infinity hn
  have hleft : |signedValue (ofNat n)| ≤ 2 ^ 64 := by
    have hscale : scale (nearest (2 ^ 64) 1) = (2 ^ 52, 12) := by decide +kernel
    have hmono : nearest n 1 ≤ nearest (2 ^ 64) 1 := nearest_mono one_pos one_pos (by gcongr)
    rw [signedValue, abs_signed, magnitude_ofNat]
    refine (value_le_value hmono).trans (le_of_eq ?_)
    rw [value, hscale]
    norm_num
  have hright : |signedValue x| ≤ (2 ^ 53 - 1 : Nat) * 2 ^ 971 := by
    have hscale : scale (infinity - 1) = (2 ^ 53 - 1, ((971 : Nat) : Int)) := by decide +kernel
    have hlast : magnitude x ≤ infinity - 1 := Nat.le_pred_of_lt ((isFinite_iff x).1 hx)
    rw [signedValue, abs_signed]
    refine (value_le_value hlast).trans (le_of_eq ?_)
    rw [value, hscale, zpow_natCast]
  have hgap : (2 : ℚ) ^ 64 < 2 ^ 970 := pow_lt_pow_right₀ one_lt_two (by norm_num)
  rw [isFinite_add_iff hnat hx]
  refine (abs_add_le _ _).trans_lt ((add_le_add hleft hright).trans_lt ?_)
  rw [overflow, pow_succ' 2 970]
  generalize (2 : ℚ) ^ 970 = unit at hgap ⊢
  push_cast
  linarith

/-! ## Quotients -/

theorem isFinite_of_div_unpacked {f g : UnpackedFloat}
    (h : (UnpackedFloat.div Format.binary64 f g).isFinite = true) : f.isFinite = true := by
  cases f with
  | notANumber => cases g <;> simp [UnpackedFloat.div, UnpackedFloat.isFinite] at h
  | infinity s => cases g <;> simp [UnpackedFloat.div, UnpackedFloat.isFinite] at h
  | zero s => rfl
  | finite s m e hm => rfl

theorem one_le_value {word : Nat} (h : nearest 1 1 ≤ word) : 1 ≤ value word := by
  have hscale : scale (nearest 1 1) = (2 ^ 52, -52) := by decide +kernel
  refine le_trans (le_of_eq ?_) (value_le_value h)
  rw [value, hscale]
  norm_num

/-- A quotient by a word that is not less than one is not larger than the numerator. -/
theorem nearest_div_le {a b n d : Nat} (ha : a ≤ infinity) (hb : nearest 1 1 ≤ b) (hd : 0 < d)
    (h : (n / d : ℚ) = value a / value b) : nearest n d ≤ a := by
  have hself := nearest_of_value ha (quotient_snd_pos a) (value_eq_div a).symm
  have hnonneg : 0 ≤ value a := by
    unfold value
    positivity
  conv_rhs => rw [← hself]
  refine nearest_mono hd (quotient_snd_pos a) ?_
  rw [h, ← value_eq_div]
  exact div_le_self hnonneg (one_le_value hb)

/-- A quotient by a float that is not less than one is finite just if its numerator is. -/
theorem isFinite_div_iff {x y : Float} (hy : nearest 1 1 ≤ magnitude y)
    (hy' : magnitude y ≤ infinity) : (x / y).isFinite = true ↔ x.isFinite = true := by
  have hmodel : (x / y).toModel = Float.Model.pack
      (UnpackedFloat.div Format.binary64 x.toModel.unpack y.toModel.unpack) := rfl
  refine ⟨fun h => isFinite_of_div_unpacked (isFinite_of_pack hmodel h), fun hx => ?_⟩
  have hone : 0 < nearest 1 1 := by decide +kernel
  have hb : 0 < magnitude y := hone.trans_le hy
  rw [isFinite_iff] at hx
  rw [unpack_toModel hx.le, unpack_toModel hy'] at hmodel
  have hfinite {s : Sign} {word : Nat} (hword : word < infinity)
      (hbits : (pack Format.binary64 (UnpackedFloat.div Format.binary64
        (unpacked (sign x) (magnitude x)) (unpacked (sign y) (magnitude y)))).toNat =
          s.toBitVec.toNat * 2 ^ 63 + word) : (x / y).isFinite = true := by
    rw [isFinite_iff, (of_toModel_eq_pack hmodel (hword.trans (by decide)) hbits).2]
    exact hword
  have hzero := toNat_pack_unpacked (sign x / sign y) (Nat.zero_le infinity)
  rcases Nat.eq_zero_or_pos (magnitude x) with ha | ha
  · refine hfinite (by decide : 0 < infinity) (Eq.trans ?_ hzero)
    rcases hy'.lt_or_eq with hfin | hinf
    · rw [ha, unpacked_of_pos hb hfin]
      rfl
    · rw [ha, hinf]
      rfl
  · rcases hy'.lt_or_eq with hfin | hinf
    · obtain ⟨n, d, hn, hd, h⟩ := exists_div_eq ha hb
      refine hfinite (s := sign x / sign y) ((nearest_div_le hx.le hy hd h).trans_lt hx) ?_
      rw [unpacked_of_pos ha hx, unpacked_of_pos hb hfin]
      exact toNat_pack_div (scale_pos ha) (scale_pos hb) hn hd h _ _
    · refine hfinite (by decide : 0 < infinity) (Eq.trans ?_ hzero)
      rw [unpacked_of_pos ha hx, hinf]
      rfl

/-! ## Ratios -/

theorem isFinite_ratio_iff {x y : Float} (hy : magnitude y = 0 ∨ nearest 1 1 ≤ magnitude y)
    (hy' : magnitude y ≤ infinity) :
    (ratio x y).isFinite = true ↔ x.isFinite = true ∨ magnitude y = 0 := by
  have hone : 0 < nearest 1 1 := by decide +kernel
  have hzero := beq_zero_iff hy'
  unfold ratio
  rcases hy with h | h
  · rw [if_pos (hzero.2 h)]
    exact iff_of_true isFinite_zero (Or.inr h)
  · have hne : magnitude y ≠ 0 := by omega
    rw [if_neg fun hbeq => hne (hzero.1 hbeq), isFinite_div_iff h hy']
    exact ⟨Or.inl, fun hor => hor.resolve_right hne⟩

theorem nearest_eq_zero_or_one_le (n : Nat) :
    nearest n 1 = 0 ∨ nearest 1 1 ≤ nearest n 1 := by
  rcases Nat.eq_zero_or_pos n with rfl | hn
  · exact Or.inl rfl
  · exact Or.inr (nearest_mono one_pos one_pos (by gcongr; exact_mod_cast hn))

theorem nearest_eq_zero_iff (n : Nat) : nearest n 1 = 0 ↔ n = 0 := by
  constructor
  · intro h
    by_contra hne
    exact (nearest_pos (Nat.pos_of_ne_zero hne)).ne' h
  · rintro rfl
    rfl

/-- A ratio to a counter is finite unless its numerator is not and the counter is not zero. -/
theorem isFinite_ratio_ofCounter_iff (x : Float) (c : Counter) :
    (ratio x (ofCounter c)).isFinite = true ↔ x.isFinite = true ∨ c = 0 := by
  have hword := magnitude_ofCounter c
  rw [isFinite_ratio_iff, hword, nearest_eq_zero_iff, Int.natAbs_eq_zero, ← Int64.toInt_zero,
    Int64.toInt_inj]
  · rw [hword]
    exact nearest_eq_zero_or_one_le _
  · rw [hword]
    exact nearest_le_infinity _ _

/-- A ratio to a number is finite unless its numerator is not and the number is not zero. -/
theorem isFinite_ratio_ofNat_iff (x : Float) (n : Nat) :
    (ratio x (ofNat n)).isFinite = true ↔ x.isFinite = true ∨ n = 0 := by
  have hword := magnitude_ofNat n
  rw [isFinite_ratio_iff, hword, nearest_eq_zero_iff]
  · rw [hword]
    exact nearest_eq_zero_or_one_le _
  · rw [hword]
    exact nearest_le_infinity _ _

end ReportTally.Binary64
