import Mathlib.Data.List.DropRight
import ReportTally.Number.Decimal
import ReportTally.Proofs.Json.Reader
import ReportTally.Proofs.Number.Digits
import ReportTally.Proofs.Number.Rounding

/-!
# Number tokens

`Json.IsNumber` is the grammar of numbers: a sign, digits without leading zeros, a fraction and an
exponent. The reader reads such a token up to its end wherever it ends (`IsNumber.number?_append`).

The decimal form of an integer is a number token (`isNumber_ofInt`), and so is the token of a float
(`isNumber_of_token?`). The digits of a float do not start with a zero, as its shortest form is not
zero (`shortest_digits_pos`), and whichever layout is chosen puts a digit on both sides of a point.
-/

namespace ReportTally.Json

open Numeral (IsDigits isDigits_ofNat)

/-! ## Digits -/

/-- The text does not start with a digit. -/
def EndsDigits (t : Text) : Prop :=
  ∀ c ∈ t.head?, Numeral.isDigit c = false

/-- The text does not start with anything that could be part of a number. -/
def EndsNumber (t : Text) : Prop :=
  ∀ c ∈ t.head?, Numeral.isDigit c = false ∧ c ≠ '.' ∧ c ≠ 'e' ∧ c ≠ 'E'

theorem takeWhile_append_of_endsDigits {ds t : Text} (hds : ∀ c ∈ ds, Numeral.isDigit c = true)
    (ht : EndsDigits t) : (ds ++ t).takeWhile Numeral.isDigit = ds ∧
      (ds ++ t).dropWhile Numeral.isDigit = t := by
  have hsplit : t.takeWhile Numeral.isDigit = [] ∧ t.dropWhile Numeral.isDigit = t := by
    cases t with
    | nil => exact ⟨rfl, rfl⟩
    | cons c t => simp [ht c rfl]
  rw [List.takeWhile_append_of_pos hds, List.dropWhile_append_of_pos hds, hsplit.1, hsplit.2,
    List.append_nil]
  exact ⟨rfl, rfl⟩

theorem digits?_append {ds t : Text} (h : IsDigits ds) (ht : EndsDigits t) :
    digits? (ds ++ t) = some (ds, t) := by
  obtain ⟨htake, hdrop⟩ := takeWhile_append_of_endsDigits h.2 ht
  unfold digits?
  rw [htake, hdrop, if_neg]
  simpa using h.1

theorem isDigit_zeros (n : Nat) : ∀ c ∈ Decimal.zeros n, Numeral.isDigit c = true := by
  intro c hc
  rw [List.eq_of_mem_replicate hc]
  decide

/-! ## The grammar -/

/-- Digits before a point: a zero, or digits that do not start with one. -/
def IsWhole (t : Text) : Prop :=
  t = ['0'] ∨ IsDigits t ∧ t.head? ≠ some '0'

/-- Nothing, or a point and digits. -/
def IsFraction (t : Text) : Prop :=
  t = [] ∨ ∃ ds, t = '.' :: ds ∧ IsDigits ds

/-- Nothing, or the letter of an exponent and digits, perhaps after a sign. -/
def IsExponent (t : Text) : Prop :=
  t = [] ∨ ∃ e sign ds, t = e :: (sign ++ ds) ∧ (e = 'e' ∨ e = 'E') ∧
    (sign = [] ∨ sign = ['-'] ∨ sign = ['+']) ∧ IsDigits ds

/-- A number token without a sign. -/
def IsUnsigned (token : Text) : Prop :=
  ∃ whole fraction exponent, token = whole ++ (fraction ++ exponent) ∧
    IsWhole whole ∧ IsFraction fraction ∧ IsExponent exponent

/-- A number token. -/
def IsNumber (token : Text) : Prop :=
  IsUnsigned token ∨ ∃ t, token = '-' :: t ∧ IsUnsigned t

theorem EndsNumber.endsDigits {t : Text} (h : EndsNumber t) : EndsDigits t :=
  fun c hc => (h c hc).1

theorem IsWhole.isDigits {t : Text} (h : IsWhole t) : IsDigits t := by
  rcases h with rfl | ⟨hds, -⟩
  · exact isDigits_ofNat 0
  · exact hds

theorem whole?_append {w t : Text} (h : IsWhole w) (ht : EndsDigits t) :
    whole? (w ++ t) = some (w, t) := by
  rcases h with rfl | ⟨hds, hhead⟩
  · rfl
  · obtain ⟨d, ds, rfl, -⟩ := hds.exists_cons
    rw [← digits?_append hds ht, List.cons_append, whole?]
    rintro t' ⟨rfl, -⟩
    exact hhead rfl

theorem fraction?_append {f t : Text} (h : IsFraction f) (ht : EndsDigits t)
    (hpoint : t.head? ≠ some '.') : fraction? (f ++ t) = some (f, t) := by
  rcases h with rfl | ⟨ds, rfl, hds⟩
  · cases t with
    | nil => rfl
    | cons c t =>
      rw [List.nil_append, fraction?]
      rintro t' ⟨rfl, -⟩
      exact hpoint rfl
  · rw [List.cons_append, fraction?, digits?_append hds ht]
    rfl

theorem power?_append {sign ds t : Text} (hsign : sign = [] ∨ sign = ['-'] ∨ sign = ['+'])
    (hds : IsDigits ds) (ht : EndsDigits t) : power? (sign ++ ds ++ t) = some (sign ++ ds, t) := by
  rcases hsign with rfl | rfl | rfl
  · obtain ⟨d, ds, rfl, hd⟩ := hds.exists_cons
    rw [List.nil_append, ← digits?_append hds ht, List.cons_append, power?] <;>
      · rintro t' ⟨rfl, -⟩
        revert hd
        decide
  · rw [List.singleton_append, List.cons_append, power?, digits?_append hds ht]
    rfl
  · rw [List.singleton_append, List.cons_append, power?, digits?_append hds ht]
    rfl

theorem exponent?_append {e t : Text} (h : IsExponent e) (ht : EndsNumber t) :
    exponent? (e ++ t) = some (e, t) := by
  rcases h with rfl | ⟨c, sign, ds, rfl, hc, hsign, hds⟩
  · cases t with
    | nil => rfl
    | cons c t =>
      obtain ⟨-, -, he, hE⟩ := ht c rfl
      rw [List.nil_append, exponent?]
      · rintro t' ⟨rfl, -⟩
        exact he rfl
      · rintro t' ⟨rfl, -⟩
        exact hE rfl
  · have hpower := power?_append hsign hds ht.endsDigits
    rcases hc with rfl | rfl <;>
      · rw [List.cons_append, exponent?, hpower]
        rfl

theorem IsUnsigned.exists_cons {token : Text} (h : IsUnsigned token) :
    ∃ c t, token = c :: t ∧ Numeral.isDigit c = true := by
  obtain ⟨whole, fraction, exponent, rfl, hwhole, -, -⟩ := h
  obtain ⟨d, ds, rfl, hd⟩ := hwhole.isDigits.exists_cons
  exact ⟨d, ds ++ (fraction ++ exponent), rfl, hd⟩

/-- The first character of a number token. -/
theorem IsNumber.exists_cons {token : Text} (h : IsNumber token) :
    ∃ c t, token = c :: t ∧ (c = '-' ∨ Numeral.isDigit c = true) := by
  rcases h with h | ⟨t, rfl, -⟩
  · obtain ⟨c, t, rfl, hc⟩ := h.exists_cons
    exact ⟨c, t, rfl, Or.inr hc⟩
  · exact ⟨'-', t, rfl, Or.inl rfl⟩

/-- The parts of a number are read one after another, each up to its end. -/
theorem IsUnsigned.parts?_append {token t : Text} (h : IsUnsigned token) (ht : EndsNumber t) :
    ∃ whole fraction exponent t₁ t₂, whole? (token ++ t) = some (whole, t₁) ∧
      fraction? t₁ = some (fraction, t₂) ∧ exponent? t₂ = some (exponent, t) ∧
      token = whole ++ (fraction ++ exponent) := by
  obtain ⟨whole, fraction, exponent, rfl, hwhole, hfraction, hexponent⟩ := h
  have hexp : EndsDigits (exponent ++ t) ∧ (exponent ++ t).head? ≠ some '.' := by
    rcases hexponent with rfl | ⟨c, sign, ds, rfl, rfl | rfl, -, -⟩
    · exact ⟨ht.endsDigits, fun hpoint => (ht '.' hpoint).2.1 rfl⟩
    · exact ⟨by rintro _ ⟨rfl⟩; decide, by simp⟩
    · exact ⟨by rintro _ ⟨rfl⟩; decide, by simp⟩
  have hfrac : EndsDigits (fraction ++ (exponent ++ t)) := by
    rcases hfraction with rfl | ⟨ds, rfl, -⟩
    · exact hexp.1
    · rintro _ ⟨rfl⟩
      decide
  refine ⟨whole, fraction, exponent, fraction ++ (exponent ++ t), exponent ++ t, ?_,
    fraction?_append hfraction hexp.1 hexp.2, exponent?_append hexponent ht, rfl⟩
  rw [List.append_assoc, List.append_assoc]
  exact whole?_append hwhole hfrac

theorem sign_of_isUnsigned {token : Text} (h : IsUnsigned token) (t : Text) :
    sign (token ++ t) = ([], token ++ t) := by
  obtain ⟨c, u, rfl, hc⟩ := h.exists_cons
  rw [List.cons_append, sign]
  rintro t' ⟨rfl, -⟩
  revert hc
  decide

/-- The reader reads a number token up to its end. -/
theorem IsNumber.number?_append {token t : Text} (h : IsNumber token) (ht : EndsNumber t) :
    number? (token ++ t) = some (token, t) := by
  unfold number?
  rcases h with h | ⟨token, rfl, h⟩
  · obtain ⟨whole, fraction, exponent, t₁, t₂, hwhole, hfraction, hexponent, htoken⟩ :=
      h.parts?_append ht
    simp [sign_of_isUnsigned h, hwhole, hfraction, hexponent, ← htoken]
  · obtain ⟨whole, fraction, exponent, t₁, t₂, hwhole, hfraction, hexponent, htoken⟩ :=
      h.parts?_append ht
    simp [sign, hwhole, hfraction, hexponent, ← htoken]

/-! ## Integers -/

theorem isWhole_ofNat (n : Nat) : IsWhole (Numeral.ofNat n) := by
  rcases Nat.eq_zero_or_pos n with rfl | hn
  · exact Or.inl rfl
  · exact Or.inr ⟨isDigits_ofNat n, Numeral.head?_ofNat hn⟩

theorem isUnsigned_ofNat (n : Nat) : IsUnsigned (Numeral.ofNat n) :=
  ⟨Numeral.ofNat n, [], [], by simp, isWhole_ofNat n, Or.inl rfl, Or.inl rfl⟩

theorem isNumber_ofInt (n : Int) : IsNumber (Numeral.ofInt n) := by
  unfold Numeral.ofInt
  split_ifs
  · exact Or.inr ⟨_, rfl, isUnsigned_ofNat _⟩
  · exact Or.inl (isUnsigned_ofNat _)

/-! ## Floats -/

open Decimal in
/-- A number of so many digits reads back as the word. -/
theorem nearest_of_ofCount? {word count : Nat} {f : Form} (h : ofCount? word count = some f) :
    nearest f.digits f.exponent = word := by
  unfold ofCount? at h
  dsimp only at h
  generalize Binary64.roundQuotient _ _ = near at h
  generalize (if near = _ then _ else _) = far at h
  split_ifs at h with hnear hfar
  · cases h
    exact hnear
  · cases h
    exact hfar

open Decimal in
theorem shortest_digits_pos {word : Nat} (h : 0 < word) : 0 < (shortest word).digits := by
  unfold shortest
  cases hfind : (List.range 17).findSome? fun i => ofCount? word (i + 1) with
  | some f =>
    obtain ⟨i, -, hi⟩ := List.exists_of_findSome?_eq_some hfind
    rw [Option.getD_some]
    refine Nat.pos_of_ne_zero fun hzero => ?_
    have hread := nearest_of_ofCount? hi
    rw [hzero] at hread
    exact h.ne hread
  | none =>
    have hscale := Binary64.scale_pos h
    rw [Option.getD_none, inFull]
    dsimp only
    split_ifs
    · exact Nat.mul_pos hscale (Nat.pow_pos two_pos)
    · exact Nat.mul_pos hscale (Nat.pow_pos (by decide))

/-- The digits of a number that is not zero, without the zeros at their end. -/
theorem isDigits_trimmed {n : Nat} (hn : 0 < n) :
    IsDigits ((Numeral.ofNat n).reverse.dropWhile (· = '0')).reverse ∧
      ((Numeral.ofNat n).reverse.dropWhile (· = '0')).reverse.head? ≠ some '0' := by
  have hds := isDigits_ofNat n
  have hhead := Numeral.head?_ofNat hn
  have hprefix := List.rdropWhile_prefix (fun c => decide (c = '0')) (Numeral.ofNat n)
  have hnil := List.rdropWhile_eq_nil_iff (p := fun c => decide (c = '0')) (l := Numeral.ofNat n)
  rw [List.rdropWhile] at hprefix hnil
  generalize ((Numeral.ofNat n).reverse.dropWhile (· = '0')).reverse = ds at hprefix hnil
  obtain ⟨d, t, ht, -⟩ := hds.exists_cons
  have hne : ds ≠ [] := fun h => by
    have hd := hnil.1 h d (ht ▸ List.mem_cons_self)
    rw [ht, List.head?_cons] at hhead
    exact hhead (congrArg some (of_decide_eq_true hd))
  refine ⟨⟨hne, fun c hc => hds.2 c (List.IsPrefix.subset hprefix hc)⟩, ?_⟩
  obtain ⟨zs, hzs⟩ := hprefix
  rwa [← hzs, List.head?_append_of_ne_nil _ hne] at hhead

theorem isExponent_power (power : Int) :
    IsExponent ('e' :: (if power < 0 then '-' else '+') :: Numeral.ofNat power.natAbs) := by
  have hds := isDigits_ofNat power.natAbs
  split_ifs
  · exact Or.inr ⟨'e', ['-'], _, rfl, Or.inl rfl, Or.inr (Or.inl rfl), hds⟩
  · exact Or.inr ⟨'e', ['+'], _, rfl, Or.inl rfl, Or.inr (Or.inr rfl), hds⟩

/-- The first digits before the point, and the others after it. -/
theorem isWhole_take {ds : Text} (hds : IsDigits ds) (hhead : ds.head? ≠ some '0') {k : Nat}
    (hk : 0 < k) (hlong : k < ds.length) :
    IsWhole (ds.take k) ∧ IsFraction ('.' :: ds.drop k) := by
  refine ⟨Or.inr ⟨⟨?_, fun c hc => hds.2 c (List.mem_of_mem_take hc)⟩, ?_⟩,
    Or.inr ⟨_, rfl, ?_, fun c hc => hds.2 c (List.mem_of_mem_drop hc)⟩⟩
  · rw [Ne, List.take_eq_nil_iff, not_or]
    exact ⟨hk.ne', hds.1⟩
  · rwa [List.head?_take, if_neg hk.ne']
  · rw [Ne, List.drop_eq_nil_iff, not_le]
    exact hlong

open Decimal in
theorem isUnsigned_layout {f : Form} (h : 0 < f.digits) : IsUnsigned (layout f) := by
  obtain ⟨hds, hhead⟩ := isDigits_trimmed h
  have hexp := isExponent_power (size f.digits + f.exponent - 1)
  unfold layout
  dsimp only
  generalize ((Numeral.ofNat f.digits).reverse.dropWhile (· = '0')).reverse = ds at hds hhead
  generalize 'e' :: (if size f.digits + f.exponent - 1 < 0 then '-' else '+') :: _ = e at hexp
  split_ifs with hsmall hplace hlong hshort
  · refine ⟨['0'], '.' :: (zeros _ ++ ds), [], by rw [List.append_nil]; rfl, Or.inl rfl,
      Or.inr ⟨_, rfl, ?_⟩, Or.inl rfl⟩
    refine ⟨List.append_ne_nil_of_right_ne_nil _ hds.1, fun c hc => ?_⟩
    rcases List.mem_append.1 hc with hc | hc
    · exact isDigit_zeros _ c hc
    · exact hds.2 c hc
  · refine ⟨ds ++ zeros _, ['.', '0'], [], rfl, Or.inr ⟨hds.append (isDigit_zeros _), ?_⟩,
      Or.inr ⟨['0'], rfl, isDigits_ofNat 0⟩, Or.inl rfl⟩
    rwa [List.head?_append_of_ne_nil _ hds.1]
  · have hpos : 0 < (size f.digits + f.exponent : Int).toNat := by
      rw [Bool.and_eq_true, decide_eq_true_eq] at hplace
      omega
    obtain ⟨hwhole, hfraction⟩ := isWhole_take hds hhead hpos (by omega)
    exact ⟨_, _, [], by rw [List.append_nil], hwhole, hfraction, Or.inl rfl⟩
  · exact ⟨ds, [], e, rfl, Or.inr ⟨hds, hhead⟩, Or.inl rfl, hexp⟩
  · obtain ⟨hwhole, hfraction⟩ := isWhole_take hds hhead one_pos (by omega)
    exact ⟨_, _, e, by rw [List.append_assoc], hwhole, hfraction, hexp⟩

/-- The token of a float is a number token. -/
theorem isNumber_of_token? {x : Float} {token : Text} (h : Decimal.token? x = some token) :
    IsNumber token := by
  unfold Decimal.token? at h
  dsimp only at h
  generalize Binary64.magnitude x = word at h
  have hdigits : IsUnsigned (if word = 0 then "0.0".toList else
      Decimal.layout (Decimal.shortest word)) := by
    split_ifs with hzero
    · exact ⟨['0'], ['.', '0'], [], rfl, Or.inl rfl, Or.inr ⟨['0'], rfl, isDigits_ofNat 0⟩,
        Or.inl rfl⟩
    · exact isUnsigned_layout (shortest_digits_pos (Nat.pos_of_ne_zero hzero))
  generalize (if word = 0 then "0.0".toList else _) = digits at h hdigits
  split_ifs at h with hinf hneg
  · cases h
    exact Or.inr ⟨digits, rfl, hdigits⟩
  · cases h
    exact Or.inl hdigits

end ReportTally.Json
