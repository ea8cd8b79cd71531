import Mathlib
import ReportTally.Proofs.Number.Digits
import ReportTally.Proofs.Number.Ratio
import ReportTally.Proofs.Number.Signs
import ReportTally.Report.Labelled

/-!
# Floats with two places

A report writes a float as its exact value, rounded to hundredths. `Binary64.roundQuotient` gives an
integer that is nearest to the exact quotient (`isNearest_roundQuotient`), where `IsNearest` compares
it with all other integers and says which of two equally near ones it is. A larger number has no
smaller nearest integer, whatever way it is found (`IsNearest.mono`).

`Fixed` is a number with two places as it is written, so its text has the right form by
construction, and says which number it is (`Fixed.text_injective`). `twoPlaces_of_finite` puts this
together.
-/

namespace ReportTally.Decimal

open Binary64 (isNegative magnitude roundQuotient signedValue)
open Numeral (written)

/-! ## Nearest integers -/

/-- The integer `n` is nearest to `v`, and if another one is equally near, then `n` is even. -/
structure IsNearest (v : ℚ) (n : ℤ) : Prop where
  /-- No integer is nearer. -/
  nearest : ∀ k : ℤ, |v - n| ≤ |v - k|
  /-- Of two nearest ones it is the even one. -/
  even : ∀ k : ℤ, k ≠ n → |v - n| = |v - k| → Even n

variable {v w : ℚ} {m n : ℤ}

/-- An integer that is at most a half away is nearest, since any other one is at least a half
away. -/
theorem isNearest_of_half (h : |v - n| ≤ 1 / 2) (heven : |v - n| = 1 / 2 → Even n) :
    IsNearest v n := by
  have hother (k : ℤ) (hk : k ≠ n) : 1 / 2 ≤ |v - k| := by
    have hgap : (1 : ℚ) ≤ |(n : ℚ) - k| := by
      exact_mod_cast Int.one_le_abs (sub_ne_zero.2 hk.symm)
    have htriangle := abs_sub_le (n : ℚ) v k
    rw [abs_sub_comm (n : ℚ) v] at htriangle
    linarith
  refine ⟨fun k => ?_, fun k hk htie => heven (le_antisymm h ?_)⟩
  · rcases eq_or_ne k n with rfl | hk
    · exact le_rfl
    · exact h.trans (hother k hk)
  · rw [htie]
    exact hother k hk

theorem IsNearest.abs_sub_le (h : IsNearest v n) : |v - n| ≤ 1 / 2 :=
  (h.nearest (round v)).trans (abs_sub_round v)

theorem IsNearest.neg (h : IsNearest v n) : IsNearest (-v) (-n) := by
  have hneg (k : ℤ) : |-v - (k : ℤ)| = |v - (-k : ℤ)| := by
    rw [← abs_neg]
    push_cast
    ring_nf
  refine ⟨fun k => ?_, fun k hk htie => ?_⟩
  · rw [hneg, hneg, neg_neg]
    exact h.nearest (-k)
  · rw [hneg, hneg, neg_neg] at htie
    exact (h.even (-k) (by omega) htie).neg

/-- A larger number has no smaller nearest integer. -/
theorem IsNearest.mono (hm : IsNearest v m) (hn : IsNearest w n) (h : v ≤ w) : m ≤ n := by
  by_contra hlt
  have hstep : (n : ℚ) + 1 ≤ m := by exact_mod_cast (not_le.1 hlt)
  have hlow := abs_le.1 hm.abs_sub_le
  have hhigh := abs_le.1 hn.abs_sub_le
  -- Otherwise both numbers are the middle of two neighbours, of which only one is even.
  have hv : v = n + 1 / 2 := by linarith
  have hw : w = n + 1 / 2 := by linarith
  obtain rfl : m = n + 1 := by
    have hm' : (m : ℚ) = (n + 1 : ℤ) := by
      push_cast
      linarith
    exact_mod_cast hm'
  have hmiddle : |(n + 1 / 2 : ℚ) - (n + 1 : ℤ)| = |(n + 1 / 2 : ℚ) - n| := by
    push_cast
    rw [add_sub_add_left_eq_sub, add_sub_cancel_left]
    norm_num
  have hupper := hm.even n (by omega) (hv ▸ hmiddle)
  have hlower := hn.even (n + 1) (by omega) (hw ▸ hmiddle.symm)
  exact Int.even_add_one.1 hupper hlower

/-- Twice the quotient is at most one away from twice the rounded one, and if it is just one away,
the rounded one is even. -/
theorem roundQuotient_bounds (n : ℕ) {d : ℕ} (hd : 0 < d) :
    2 * n ≤ (2 * roundQuotient n d + 1) * d ∧ 2 * roundQuotient n d * d ≤ 2 * n + d ∧
      (2 * n = (2 * roundQuotient n d + 1) * d ∨ 2 * roundQuotient n d * d = 2 * n + d →
        Even (roundQuotient n d)) := by
  have hup := (Binary64.roundQuotient_le_iff (n := n) hd _).1 le_rfl
  have hdown (k : ℕ) (hk : roundQuotient n d = k + 1) :=
    mt (Binary64.roundQuotient_le_iff (n := n) hd k).2 (by omega)
  generalize roundQuotient n d = r at hup hdown
  rw [Nat.even_iff]
  cases r with
  | zero => omega
  | succ k =>
    have hdown := hdown k rfl
    have hexpand : 2 * (k + 1) * d = (2 * k + 1) * d + d := by ring
    have hexpand' : (2 * (k + 1) + 1) * d = (2 * k + 1) * d + 2 * d := by ring
    rw [hexpand'] at hup
    rw [hexpand, hexpand']
    omega

/-- Rounding a quotient gives an integer that is nearest to it. -/
theorem isNearest_roundQuotient (n : ℕ) {d : ℕ} (hd : 0 < d) :
    IsNearest (n / d) (roundQuotient n d) := by
  have hd' : (0 : ℚ) < d := by exact_mod_cast hd
  obtain ⟨hup, hdown, heven⟩ := roundQuotient_bounds n hd
  generalize roundQuotient n d = r at hup hdown heven
  have hup' : (2 * n : ℚ) ≤ (2 * r + 1) * d := by exact_mod_cast hup
  have hdown' : (2 * r * d : ℚ) ≤ 2 * n + d := by exact_mod_cast hdown
  refine isNearest_of_half (abs_sub_le_iff.2 ⟨?_, ?_⟩) fun htie => ?_ <;>
    rw [Int.cast_natCast] at *
  · rw [sub_le_iff_le_add, div_le_iff₀ hd']
    linarith
  · rw [sub_le_comm, le_div_iff₀ hd']
    linarith
  · refine (heven ?_).natCast
    rcases eq_or_eq_neg_of_abs_eq htie with h | h <;>
      rw [sub_eq_iff_eq_add, div_eq_iff hd'.ne'] at h
    · left
      have heq : (2 * n : ℚ) = (2 * r + 1) * d := by linarith
      exact_mod_cast heq
    · right
      have heq : (2 * r * d : ℚ) = 2 * n + d := by linarith
      exact_mod_cast heq

/-! ## Numbers with two places -/

/-- A number with two places as it is written: a minus sign or none, digits that start with a zero
only if it is the only one, a point, and two digits. -/
structure Fixed where
  /-- Does a minus sign stand in front? -/
  negative : Bool
  /-- The digits before the point. -/
  whole : List (Fin 10)
  /-- The first digit after the point. -/
  tenths : Fin 10
  /-- The last digit. -/
  last : Fin 10
  /-- A digit stands before the point. -/
  whole_ne_nil : whole ≠ []
  /-- No zero stands in front of another digit before the point. -/
  whole_of_zero : whole.head? = some 0 → whole = [0]

namespace Fixed

/-- The text. -/
def text (f : Fixed) : Text :=
  (if f.negative then ['-'] else []) ++ written f.whole ++ '.' :: written [f.tenths, f.last]

/-- The number in hundredths. -/
def units (f : Fixed) : ℤ :=
  let n := Numeral.number (f.whole ++ [f.tenths, f.last])
  if f.negative then -n else n

/-- The number. -/
def number (f : Fixed) : ℚ :=
  f.units / 100

theorem written_ne_cons_minus (ds : List (Fin 10)) (t : Text) : written ds ≠ '-' :: t := by
  intro h
  have hminus : '-' ∈ written ds := h ▸ List.mem_cons_self
  exact absurd (Numeral.isDigit_of_mem_written hminus) (by decide)

/-- The text says which number it is. -/
theorem text_injective {f g : Fixed} (h : f.text = g.text) : f = g := by
  obtain ⟨negative, whole, tenths, last, _, _⟩ := f
  obtain ⟨negative', whole', tenths', last', _, _⟩ := g
  obtain ⟨hfront, hback⟩ := List.append_inj' h rfl
  obtain ⟨rfl, rfl⟩ : tenths = tenths' ∧ last = last' := by
    simpa using Numeral.written_injective (List.cons.inj hback).2
  obtain ⟨rfl, rfl⟩ : negative = negative' ∧ whole = whole' := by
    cases negative <;> cases negative'
    · exact ⟨rfl, Numeral.written_injective hfront⟩
    · exact absurd hfront (written_ne_cons_minus whole _)
    · exact absurd hfront.symm (written_ne_cons_minus whole' _)
    · exact ⟨rfl, Numeral.written_injective (List.cons.inj hfront).2⟩
  rfl

/-- A number of hundredths is written in this form. -/
theorem exists_text_eq (negative : Bool) (n : ℕ) : ∃ f : Fixed, f.negative = negative ∧
    f.text = (if negative then '-' :: placeTwo n else placeTwo n) ∧
      f.units = if negative then -(n : ℤ) else n := by
  obtain ⟨ds, hds, hne⟩ := Numeral.isDigits_iff.1 (Numeral.isDigits_ofNat (n / 100))
  have hzero : ds.head? = some 0 → ds = [0] := by
    intro hhead
    have hhead' : (Numeral.ofNat (n / 100)).head? = some '0' := by
      rw [hds, written, List.head?_map, hhead]
      rfl
    have hnone : n / 100 = 0 := by
      by_contra hpos
      exact Numeral.head?_ofNat (Nat.pos_of_ne_zero hpos) hhead'
    rw [hnone] at hds
    exact Numeral.written_injective hds.symm
  have htenths : n / 10 % 10 < 10 := Nat.mod_lt _ (by decide)
  have hlast : n % 10 < 10 := Nat.mod_lt _ (by decide)
  have hwhole : Numeral.number ds = n / 100 := by
    rw [← Numeral.value_written, ← hds, Numeral.value_ofNat]
  have hnumber : Numeral.number (ds ++ [⟨n / 10 % 10, htenths⟩, ⟨n % 10, hlast⟩]) = n := by
    rw [Numeral.number_append_pair, hwhole]
    dsimp only
    omega
  have htext : placeTwo n =
      written ds ++ '.' :: written [⟨n / 10 % 10, htenths⟩, ⟨n % 10, hlast⟩] := by
    rw [placeTwo, hds]
    rfl
  refine ⟨⟨negative, ds, ⟨n / 10 % 10, htenths⟩, ⟨n % 10, hlast⟩, hne, hzero⟩, rfl, ?_, ?_⟩
  · rw [htext, text]
    cases negative <;> rfl
  · rw [units, hnumber]

/-- Of all multiples of `1 / 100` the number is nearest to `v`, and if another one is equally near,
its last digit is even. -/
structure Rounds (f : Fixed) (v : ℚ) : Prop where
  /-- No multiple of `1 / 100` is nearer. -/
  nearest : ∀ k : ℤ, |v - f.number| ≤ |v - k / 100|
  /-- Of two nearest ones it is the one that ends with an even digit. -/
  even : ∀ k : ℤ, (k / 100 : ℚ) ≠ f.number → |v - f.number| = |v - k / 100| → Even (f.last : ℕ)

theorem even_last {f : Fixed} (h : Even f.units) : Even (f.last : ℕ) := by
  have hunits : f.units.natAbs = Numeral.number (f.whole ++ [f.tenths, f.last]) := by
    unfold units
    dsimp only
    split_ifs <;> omega
  rw [← Int.natAbs_even, hunits, Numeral.number_append_pair, Nat.even_iff] at h
  rw [Nat.even_iff]
  omega

theorem rounds_of_isNearest {f : Fixed} (h : IsNearest (100 * v) f.units) : f.Rounds v := by
  have hscale (k : ℤ) : |v - k / 100| = |100 * v - k| / 100 := by
    have hsplit : v - k / 100 = (100 * v - k) / 100 := by ring
    rw [hsplit, abs_div, abs_of_pos (by norm_num : (0 : ℚ) < 100)]
  refine ⟨fun k => ?_, fun k hk htie => even_last (h.even k ?_ ?_)⟩
  · rw [number, hscale, hscale]
    exact div_le_div_of_nonneg_right (h.nearest k) (by norm_num)
  · rintro rfl
    exact hk rfl
  · rw [number, hscale, hscale] at htie
    exact (div_left_inj' (by norm_num)).1 htie

theorem number_le_number {f g : Fixed} (hf : IsNearest (100 * v) f.units)
    (hg : IsNearest (100 * w) g.units) (h : v ≤ w) : f.number ≤ g.number := by
  have hmono : f.units ≤ g.units := hf.mono hg (by linarith)
  unfold number
  gcongr

end Fixed

/-! ## Floats -/

variable {x : Float}

theorem isNearest_hundredths (word : ℕ) :
    IsNearest (100 * Binary64.value word) (hundredths word) := by
  have hnearest := isNearest_roundQuotient (100 * (Binary64.quotient word).1)
    (Binary64.quotient_snd_pos word)
  rw [Nat.cast_mul, mul_div_assoc, ← Binary64.value_eq_div] at hnearest
  exact hnearest

/-- The text of a finite float is that of a number in hundredths, with the sign of the float. -/
theorem exists_fixed (hx : x.isFinite = true) : ∃ f : Fixed, twoPlaces x = f.text ∧
    f.negative = isNegative x ∧ IsNearest (100 * signedValue x) f.units := by
  have hfin := (Binary64.isFinite_iff x).1 hx
  obtain ⟨f, hnegative, htext, hunits⟩ :=
    Fixed.exists_text_eq (isNegative x) (hundredths (magnitude x))
  refine ⟨f, ?_, hnegative, ?_⟩
  · rw [htext, twoPlaces]
    dsimp only
    rw [if_neg (not_lt.2 hfin.le), if_neg hfin.ne]
  · have hnearest := isNearest_hundredths (magnitude x)
    rw [hunits, signedValue, Binary64.sign]
    split_ifs
    · have hneg := hnearest.neg
      rwa [← mul_neg] at hneg
    · exact hnearest

/-- The text of a finite float, alone or in a line of a report, is a number with two places. A minus
sign stands in front just if the sign bit is set, also if only zeros follow. The number is the
multiple of `1 / 100` that is nearest to the exact value of the float, and of two such multiples the
one with an even last digit. A larger float has no smaller number. -/
theorem twoPlaces_of_finite (hx : x.isFinite = true) : ∃ f : Fixed, twoPlaces x = f.text ∧
    (∀ label, Labelled.float label x = label.toList ++ ": ".toList ++ f.text ++ ['\n']) ∧
    (f.negative = true ↔ 2 ^ 63 ≤ x.toBits.toNat) ∧ f.Rounds (signedValue x) ∧
    ∀ (y : Float) (g : Fixed), y.isFinite = true → twoPlaces y = g.text → x ≤ y →
      f.number ≤ g.number := by
  obtain ⟨f, htext, hnegative, hnearest⟩ := exists_fixed hx
  have hsign : Binary64.signBit = 2 ^ 63 := by decide
  refine ⟨f, htext, fun label => ?_, ?_, Fixed.rounds_of_isNearest hnearest,
    fun y g hy hg hle => ?_⟩
  · rw [Labelled.float, htext, Labelled.line]
  · rw [hnegative, isNegative, hsign, decide_eq_true_eq]
  · obtain ⟨g', htext', -, hnearest'⟩ := exists_fixed hy
    obtain rfl : g' = g := Fixed.text_injective (htext'.symm.trans hg)
    exact Fixed.number_le_number hnearest hnearest' ((Binary64.le_iff_signedValue_le hx hy).1 hle)

/-- A negative float in the middle of two hundredths goes to the even one. The float closest to
`1.005` is less than that, so it goes down. -/
theorem twoPlaces_of_middle :
    ∃ f g : Fixed, f.text = "-0.12".toList ∧ f.Rounds (-1 / 8) ∧ g.text = "1.00".toList ∧
      f.number ≤ g.number := by
  have hvalue : signedValue (-0.125) = -1 / 8 := by decide +kernel
  obtain ⟨f, hf, -, -, hrounds, hmono⟩ := twoPlaces_of_finite (x := -0.125) (by decide +kernel)
  obtain ⟨g, hg, -⟩ := twoPlaces_of_finite (x := 1.005) (by decide +kernel)
  refine ⟨f, g, hf.symm.trans (by decide +kernel), hvalue ▸ hrounds,
    hg.symm.trans (by decide +kernel), hmono 1.005 g (by decide +kernel) hg (by decide +kernel)⟩

end ReportTally.Decimal
