import ReportTally.Proofs.Number.Decimal

/-!
# Number literals

A literal without a sign `Denotes` a value: the number with its digits, times a power of ten that is
the less the more digits stand after the point. Zeros in front of the digits do not count, and zeros
behind them move the power (`denotes_zeros_append`, `denotes_append_zeros`), so every layout of a
decimal number denotes the number (`denotes_layout`).

The word of a literal depends on its value alone, so the layout of the shortest form of a word is
read as the word (`magnitude?_layout`). With its sign, the token of a finite float is read as the
float (`exists_token?`).
-/

namespace ReportTally.Numeral

/-! ## Digits and their values -/

theorem value_append (s t : Text) : value (s ++ t) = 10 ^ t.length * value s + value t := by
  change Nat.ofDigitChars 10 (s ++ t) 0 = 10 ^ t.length * Nat.ofDigitChars 10 s 0 +
    Nat.ofDigitChars 10 t 0
  rw [Nat.ofDigitChars_append, Nat.ofDigitChars_eq_ofDigitChars_zero]

theorem value_zeros (k : Nat) : value (Decimal.zeros k) = 0 := by
  change Nat.ofDigitChars 10 (List.replicate k '0') 0 = 0
  rw [Nat.ofDigitChars_replicate_zero, mul_zero]

theorem value_zeros_append (k : Nat) (t : Text) : value (Decimal.zeros k ++ t) = value t := by
  rw [value_append, value_zeros, mul_zero, zero_add]

theorem value_append_zeros (t : Text) (k : Nat) :
    value (t ++ Decimal.zeros k) = value t * 10 ^ k := by
  rw [value_append, value_zeros, add_zero, Decimal.zeros, List.length_replicate, mul_comm]

theorem le_value_foldl (ds : Text) (n : Nat) :
    n ≤ ds.foldl (fun n c => 10 * n + (c.toNat - '0'.toNat)) n := by
  induction ds generalizing n with
  | nil => exact le_rfl
  | cons c ds ih =>
    refine le_trans ?_ (ih (10 * n + (c.toNat - '0'.toNat)))
    omega

end ReportTally.Numeral

namespace ReportTally.Decimal

open Numeral (IsDigits)
open Json (EndsDigits)

/-! ## Exponents -/

/-- An exponent below the limit is the number with its digits. -/
theorem exponentSize_eq {ds : Text} (h : Numeral.value ds < exponentLimit) :
    exponentSize ds = Numeral.value ds := by
  unfold exponentSize Numeral.value
  unfold Numeral.value at h
  generalize 0 = n at h ⊢
  induction ds generalizing n with
  | nil => rfl
  | cons c ds ih =>
    have hn : n < exponentLimit := (Numeral.le_value_foldl (c :: ds) n).trans_lt h
    rw [List.foldl_cons, List.foldl_cons, if_pos hn]
    exact ih _ h

theorem exponentDigits?_ofNat {n : Nat} (h : n < exponentLimit) :
    exponentDigits? (Numeral.ofNat n) = some n := by
  have hds := Numeral.isDigits_ofNat n
  have hvalue := Numeral.value_ofNat n
  have hall : (!(Numeral.ofNat n).isEmpty && (Numeral.ofNat n).all Numeral.isDigit) = true := by
    rw [Bool.and_eq_true, List.all_eq_true]
    exact ⟨by simpa using hds.1, hds.2⟩
  rw [exponentDigits?, if_pos hall, exponentSize_eq (hvalue.trans_lt h), hvalue]

/-- The exponent of a power with its sign. -/
theorem exponent?_power {power : Int} (h : power.natAbs < exponentLimit) :
    exponent? ('e' :: (if power < 0 then '-' else '+') :: Numeral.ofNat power.natAbs) =
      some power := by
  split_ifs with hneg
  · simp [exponent?, exponentDigits?_ofNat h, abs_of_neg hneg]
  · simp [exponent?, exponentDigits?_ofNat h, abs_of_nonneg (not_lt.1 hneg)]

/-! ## Literals and their values -/

/-- The value of a literal. -/
def Parts.value (p : Parts) : ℚ :=
  Numeral.value (p.whole ++ p.fraction) * 10 ^ (p.exponent - p.fraction.length)

/-- The text is a literal without a sign, of this value. -/
def Denotes (t : Text) (q : ℚ) : Prop :=
  ∃ p, parts? t = some p ∧ p.value = q

variable {whole fraction x : Text} {m word : Nat} {e : Int}

theorem endsDigits_nil : EndsDigits [] := by
  simp [EndsDigits]

theorem denotes_of_point (hwhole : IsDigits whole)
    (hfraction : ∀ c ∈ fraction, Numeral.isDigit c = true) (hend : EndsDigits x)
    (hx : exponent? x = some e) : Denotes (whole ++ '.' :: (fraction ++ x))
      (Numeral.value (whole ++ fraction) * 10 ^ (e - fraction.length)) := by
  have hpoint : EndsDigits ('.' :: (fraction ++ x)) := by
    rintro _ ⟨rfl⟩
    decide
  obtain ⟨htake, hdrop⟩ := Json.takeWhile_append_of_endsDigits hwhole.2 hpoint
  obtain ⟨htake', hdrop'⟩ := Json.takeWhile_append_of_endsDigits hfraction hend
  refine ⟨⟨whole, fraction, e⟩, ?_, rfl⟩
  unfold parts?
  simp [htake, hdrop, htake', hdrop', hx, hwhole.1]

theorem denotes_of_whole (hwhole : IsDigits whole) (hend : EndsDigits x)
    (hpoint : x.head? ≠ some '.') (hx : exponent? x = some e) :
    Denotes (whole ++ x) (Numeral.value whole * 10 ^ e) := by
  obtain ⟨htake, hdrop⟩ := Json.takeWhile_append_of_endsDigits hwhole.2 hend
  refine ⟨⟨whole, [], e⟩, ?_, by simp [Parts.value]⟩
  unfold parts?
  rw [htake, hdrop]
  cases x with
  | nil => simp [hx, hwhole.1]
  | cons c x =>
    have hc : c ≠ '.' := fun h => hpoint (h ▸ rfl)
    simp [hx, hwhole.1, hc]

variable {ds : Text}

/-- Digits after a point, with zeros in front of them. -/
theorem denotes_zeros_append (hds : IsDigits ds) (k : Nat) :
    Denotes ('0' :: '.' :: (zeros k ++ ds))
      (Numeral.value ds * 10 ^ (-(k + ds.length : Nat) : Int)) := by
  have hfraction : ∀ c ∈ zeros k ++ ds, Numeral.isDigit c = true := by
    intro c hc
    rcases List.mem_append.1 hc with hc | hc
    · exact Json.isDigit_zeros k c hc
    · exact hds.2 c hc
  have h := denotes_of_point (Numeral.isDigits_ofNat 0) hfraction endsDigits_nil rfl
  have hvalue : Numeral.value (Numeral.ofNat 0 ++ (zeros k ++ ds)) = Numeral.value ds := by
    rw [← List.append_assoc]
    exact Numeral.value_zeros_append (k + 1) ds
  rw [hvalue, List.append_nil, zero_sub, List.length_append, zeros, List.length_replicate] at h
  exact h

/-- Digits before a point, with zeros behind them. -/
theorem denotes_append_zeros (hds : IsDigits ds) (k : Nat) :
    Denotes (ds ++ zeros k ++ ['.', '0']) (Numeral.value ds * 10 ^ k) := by
  have h := denotes_of_point (hds.append (Json.isDigit_zeros k)) (Json.isDigit_zeros 1)
    endsDigits_nil rfl
  have hvalue : (Numeral.value (ds ++ zeros k ++ zeros 1) * 10 ^ (0 - (zeros 1).length : Int) : ℚ) =
      Numeral.value ds * 10 ^ k := by
    rw [Numeral.value_append_zeros, Numeral.value_append_zeros]
    simp [zeros]
  rw [hvalue] at h
  exact h

/-- Digits with a point in between. -/
theorem denotes_take_drop (hds : IsDigits ds) {k : Nat} (hk : 0 < k) (hend : EndsDigits x)
    (hx : exponent? x = some e) : Denotes (ds.take k ++ '.' :: (ds.drop k ++ x))
      (Numeral.value ds * 10 ^ (e - (ds.length - k : Nat))) := by
  have htake : IsDigits (ds.take k) := by
    refine ⟨?_, fun c hc => hds.2 c (List.mem_of_mem_take hc)⟩
    rw [Ne, List.take_eq_nil_iff, not_or]
    exact ⟨hk.ne', hds.1⟩
  have hdrop : ∀ c ∈ ds.drop k, Numeral.isDigit c = true := fun c hc =>
    hds.2 c (List.mem_of_mem_drop hc)
  have h := denotes_of_point htake hdrop hend hx
  rwa [List.take_append_drop, List.length_drop] at h

/-! ## Layouts -/

/-- The digits of a number, without the zeros at their end and with them. -/
theorem ofNat_eq_append_zeros (n : Nat) : ∃ k, Numeral.ofNat n =
    ((Numeral.ofNat n).reverse.dropWhile (· = '0')).reverse ++ zeros k := by
  refine ⟨((Numeral.ofNat n).reverse.takeWhile (· = '0')).length, ?_⟩
  have hzeros : ((Numeral.ofNat n).reverse.takeWhile (· = '0')).reverse =
      zeros ((Numeral.ofNat n).reverse.takeWhile (· = '0')).length := by
    refine List.eq_replicate_iff.2 ⟨List.length_reverse, fun c hc => ?_⟩
    simpa using List.mem_takeWhile_imp (List.mem_reverse.1 hc)
  rw [← hzeros, ← List.reverse_append, List.takeWhile_append_dropWhile, List.reverse_reverse]

/-- A layout denotes the value of its form, if the exponent is not too large to be read. -/
theorem denotes_layout {f : Form} (hpos : 0 < f.digits)
    (hsize : (size f.digits + f.exponent - 1).natAbs < exponentLimit) :
    Denotes (layout f) f.value := by
  obtain ⟨hds, -⟩ := Json.isDigits_trimmed hpos
  obtain ⟨k, hk⟩ := ofNat_eq_append_zeros f.digits
  have hpower := exponent?_power hsize
  have hhead : ('e' :: (if size f.digits + f.exponent - 1 < 0 then '-' else '+') ::
      Numeral.ofNat (size f.digits + f.exponent - 1).natAbs).head? ≠ some '.' := by
    simp
  unfold layout
  dsimp only
  generalize ((Numeral.ofNat f.digits).reverse.dropWhile (· = '0')).reverse = ds at hds hk
  -- Without the zeros at its end, the number is followed by more places.
  have hlength : size f.digits = ds.length + k := by
    rw [size, hk, List.length_append, zeros, List.length_replicate]
  have hdigits : f.digits = Numeral.value ds * 10 ^ k := by
    rw [← Numeral.value_ofNat f.digits, hk, Numeral.value_append_zeros]
  have hvalue : f.value = Numeral.value ds * 10 ^ (size f.digits + f.exponent - ds.length) := by
    have hexponent : (size f.digits + f.exponent - ds.length : Int) = k + f.exponent := by omega
    rw [Form.value, hexponent, zpow_add₀ (by norm_num), hdigits]
    push_cast
    rw [zpow_natCast, mul_assoc]
  have hend : EndsDigits ('e' :: (if size f.digits + f.exponent - 1 < 0 then '-' else '+') ::
      Numeral.ofNat (size f.digits + f.exponent - 1).natAbs) := by
    rintro _ ⟨rfl⟩
    decide
  rw [hvalue]
  generalize 'e' :: (if size f.digits + f.exponent - 1 < 0 then '-' else '+') :: _ = x
    at hpower hend hhead ⊢
  generalize (size f.digits + f.exponent : Int) = place at hpower ⊢
  split_ifs with hsmall hplace hlong hshort
  · rw [Bool.and_eq_true, decide_eq_true_eq, decide_eq_true_eq] at hsmall
    have hexponent : (place - ds.length : Int) = -((-place).toNat + ds.length : Nat) := by omega
    rw [hexponent]
    exact denotes_zeros_append hds _
  · rw [Bool.and_eq_true, decide_eq_true_eq, decide_eq_true_eq] at hplace
    have hexponent : (place - ds.length : Int) = (place.toNat - ds.length : Nat) := by omega
    rw [hexponent, zpow_natCast]
    exact denotes_append_zeros hds _
  · rw [Bool.and_eq_true, decide_eq_true_eq, decide_eq_true_eq] at hplace
    have hexponent : (place - ds.length : Int) = 0 - (ds.length - place.toNat : Nat) := by omega
    have hcut := denotes_take_drop hds (k := place.toNat) (by omega) endsDigits_nil rfl
    rwa [List.append_nil, ← hexponent] at hcut
  · have hlength := List.length_pos_of_ne_nil hds.1
    have hexponent : (place - ds.length : Int) = place - 1 := by omega
    rw [hexponent]
    exact denotes_of_whole hds hend hhead hpower
  · have hexponent : (place - ds.length : Int) = place - 1 - (ds.length - 1 : Nat) := by omega
    rw [hexponent, List.append_assoc]
    exact denotes_take_drop hds one_pos hend hpower

/-! ## Reading -/

theorem toLower_of_isDigit {c : Char} (h : Numeral.isDigit c = true) : c.toLower = c := by
  have hhigh : c.val.toNat ≤ 57 := (Numeral.toNat_of_isDigit h).2
  unfold Char.toLower
  rw [dif_neg]
  rintro ⟨hlow, -⟩
  have hletter : 65 ≤ c.val.toNat := UInt32.le_iff_toNat_le.1 hlow
  omega

/-- A literal that starts with a digit has the word nearest to its value. -/
theorem magnitude?_of_denotes {t : Text} {q : ℚ} (h : Denotes t q)
    (ht : ∃ c u, t = c :: u ∧ Numeral.isDigit c = true) (hq : (m * 10 ^ e : ℚ) = q) :
    magnitude? t = some (nearest m e) := by
  obtain ⟨p, hp, hvalue⟩ := h
  obtain ⟨c, u, rfl, hc⟩ := ht
  have hname : ∀ d name, Numeral.isDigit d = false →
      (c :: u).map Char.toLower ≠ d :: name := by
    intro d name hd heq
    rw [List.map_cons, toLower_of_isDigit hc] at heq
    rw [(List.cons.inj heq).1, hd] at hc
    cases hc
  have hinf : ¬(decide ((c :: u).map Char.toLower = "inf".toList) ||
      decide ((c :: u).map Char.toLower = "infinity".toList)) = true := by
    rw [Bool.or_eq_true, decide_eq_true_eq, decide_eq_true_eq, not_or]
    exact ⟨hname 'i' _ (by decide), hname 'i' _ (by decide)⟩
  have hnan : (c :: u).map Char.toLower ≠ "nan".toList := hname 'n' _ (by decide)
  rw [magnitude?, if_neg hinf, if_neg hnan, hp, Option.map_some]
  exact congrArg some (nearest_congr (hvalue.trans hq.symm))

/-- The shortest form of a word, as it is laid out, is read as the word. -/
theorem magnitude?_layout (hpos : 0 < word) (hfin : word < Binary64.infinity) :
    magnitude? (layout (shortest word)) = some word := by
  have hdigits := Json.shortest_digits_pos hpos
  have hnearest := nearest_shortest hpos hfin
  have hsize := size_of_nearest (hnearest.symm ▸ hpos) (hnearest.symm ▸ hfin)
  have hlimit : exponentLimit = 65536 := by decide
  have hdenotes := denotes_layout hdigits (by omega)
  rw [magnitude?_of_denotes hdenotes (Json.isUnsigned_layout hdigits).exists_cons rfl, hnearest]

/-- A text that starts with a digit has no sign. -/
theorem read?_of_isDigit {t : Text} (ht : ∃ c u, t = c :: u ∧ Numeral.isDigit c = true) :
    read? t = (magnitude? t).map (Binary64.ofSign false) := by
  obtain ⟨c, u, rfl, hc⟩ := ht
  rw [read?] <;>
    · rintro t' ⟨rfl, -⟩
      revert hc
      decide

/-- The token of a finite float is read as the float. -/
theorem exists_token? {x : Float} (h : x.isFinite = true) :
    ∃ token, token? x = some token ∧ finite? token = some x := by
  have hfin := (Binary64.isFinite_iff x).1 h
  have hx := Binary64.ofSign_magnitude hfin.le
  have hdigits : ∃ digits, (if Binary64.magnitude x = 0 then "0.0".toList else
        layout (shortest (Binary64.magnitude x))) = digits ∧
      magnitude? digits = some (Binary64.magnitude x) ∧
      ∃ c u, digits = c :: u ∧ Numeral.isDigit c = true := by
    refine ⟨_, rfl, ?_⟩
    split_ifs with hzero
    · rw [hzero]
      exact ⟨by decide, '0', ".0".toList, rfl, by decide⟩
    · have hpos := Nat.pos_of_ne_zero hzero
      exact ⟨magnitude?_layout hpos hfin,
        (Json.isUnsigned_layout (Json.shortest_digits_pos hpos)).exists_cons⟩
  obtain ⟨digits, heq, hread, hdigit⟩ := hdigits
  refine ⟨if Binary64.isNegative x then '-' :: digits else digits, ?_, ?_⟩
  · unfold token?
    dsimp only
    rw [if_neg (not_le.2 hfin), heq]
  · have hread : read? (if Binary64.isNegative x then '-' :: digits else digits) = some x := by
      split_ifs with hneg
      · rw [read?, hread, Option.map_some, ← hneg, hx]
      · rw [read?_of_isDigit hdigit, hread, Option.map_some, ← Bool.eq_false_iff.2 hneg, hx]
    rw [finite?, hread]
    exact Option.filter_some_pos h

end ReportTally.Decimal
