import Mathlib.Data.List.Basic
import Mathlib.Data.List.Induction
import Mathlib.Data.Nat.Digits.Defs
import Mathlib.Tactic.IntervalCases
import ReportTally.Number.Numeral

/-!
# Decimal digits

The decimal form of a number is a run of digits (`isDigits_ofNat`) that starts with a zero only for
zero itself (`head?_ofNat`). An integer is read back from its decimal form (`signed?_ofInt`).

A run of digits is the text of a list of numbers below ten (`isDigits_iff`), and what is read from
it is the number with these digits, the sum of their multiples of powers of ten (`value_written`).
So what is read as an integer is a literal of it: digits, perhaps after one sign
(`signed?_eq_some_iff`).

What is read as an unsigned number of 64 bits is a run of digits, perhaps after a plus sign, with a
value below `2 ^ 64` (`word?_eq_some_iff`).
-/

namespace ReportTally.Numeral

/-- A run of at least one digit. -/
def IsDigits (t : Text) : Prop :=
  t ≠ [] ∧ ∀ c ∈ t, isDigit c = true

theorem IsDigits.exists_cons {t : Text} (h : IsDigits t) :
    ∃ d ds, t = d :: ds ∧ isDigit d = true := by
  obtain ⟨d, ds, rfl⟩ := List.exists_cons_of_ne_nil h.1
  exact ⟨d, ds, rfl, h.2 d List.mem_cons_self⟩

theorem IsDigits.append {s t : Text} (hs : IsDigits s) (ht : ∀ c ∈ t, isDigit c = true) :
    IsDigits (s ++ t) := by
  refine ⟨List.append_ne_nil_of_left_ne_nil hs.1 t, fun c hc => ?_⟩
  rcases List.mem_append.1 hc with hc | hc
  · exact hs.2 c hc
  · exact ht c hc

theorem toNat_of_isDigit {c : Char} (h : isDigit c = true) : 48 ≤ c.toNat ∧ c.toNat ≤ 57 := by
  rw [isDigit, Bool.and_eq_true, decide_eq_true_eq, decide_eq_true_eq] at h
  exact ⟨UInt32.le_iff_toNat_le.1 h.1, UInt32.le_iff_toNat_le.1 h.2⟩

theorem isDigit_digitChar {n : Nat} (h : n < 10) : isDigit (Nat.digitChar n) = true := by
  have hall : ∀ k < 10, isDigit (Nat.digitChar k) = true := by decide
  exact hall n h

theorem isDigits_ofNat (n : Nat) : IsDigits (ofNat n) := by
  refine ⟨Nat.toDigits_ne_nil, fun c hc => ?_⟩
  have := Nat.isDigit_of_mem_toDigits (by decide) (by decide) hc
  rw [Char.isDigit, Bool.and_eq_true, decide_eq_true_eq, decide_eq_true_eq] at this
  rw [isDigit, Bool.and_eq_true, decide_eq_true_eq, decide_eq_true_eq]
  exact this

/-- The digits of a number that is not zero do not start with a zero. -/
theorem head?_ofNat {n : Nat} (hn : 0 < n) : (ofNat n).head? ≠ some '0' := by
  induction n using Nat.strongRecOn with
  | ind n ih =>
    rcases Nat.lt_or_ge n 10 with hlt | hge
    · rw [ofNat, Nat.toDigits_of_lt_base hlt]
      interval_cases n <;> decide
    · have hrest := ih (n / 10) (by omega) (by omega)
      rw [ofNat, Nat.toDigits_of_base_le (by decide) hge,
        List.head?_append_of_ne_nil _ Nat.toDigits_ne_nil]
      exact hrest

/-! ## Reading back -/

theorem natural?_of_isDigits {t : Text} (h : IsDigits t) : natural? t = some (value t) := by
  have hall : (!t.isEmpty && t.all isDigit) = true := by
    rw [Bool.and_eq_true, List.all_eq_true]
    exact ⟨by simpa using h.1, h.2⟩
  rw [natural?, if_pos hall]

theorem natural?_eq_some_iff {t : Text} {n : Nat} :
    natural? t = some n ↔ IsDigits t ∧ value t = n := by
  constructor
  · intro h
    have hall : (!t.isEmpty && t.all isDigit) = true := by
      by_contra hno
      rw [natural?, if_neg hno] at h
      cases h
    rw [Bool.and_eq_true, List.all_eq_true] at hall
    have ht : IsDigits t := ⟨by simpa using hall.1, hall.2⟩
    rw [natural?_of_isDigits ht] at h
    exact ⟨ht, Option.some.inj h⟩
  · rintro ⟨ht, rfl⟩
    exact natural?_of_isDigits ht

theorem value_ofNat (n : Nat) : value (ofNat n) = n :=
  Nat.ofDigitChars_ten_toDigits

theorem natural?_ofNat (n : Nat) : natural? (ofNat n) = some n := by
  rw [natural?_of_isDigits (isDigits_ofNat n), value_ofNat]

/-- Digits without a sign are read as they are. -/
theorem signed?_of_isDigits {t : Text} (h : IsDigits t) :
    signed? t = (natural? t).map Int.ofNat := by
  obtain ⟨d, ds, rfl, hd⟩ := h.exists_cons
  rw [signed?] <;>
    · rintro t' ⟨rfl, -⟩
      revert hd
      decide

/-- An integer is read back from its decimal form. -/
theorem signed?_ofInt (n : Int) : signed? (ofInt n) = some n := by
  unfold ofInt
  split_ifs with h
  · have hneg : -(n.natAbs : Int) = n := by omega
    rw [signed?, natural?_ofNat]
    exact congrArg some hneg
  · have hpos : (n.natAbs : Int) = n := by omega
    rw [signed?_of_isDigits (isDigits_ofNat _), natural?_ofNat]
    exact congrArg some hpos

/-! ## Digits as numbers -/

/-- The text with these digits. -/
def written (ds : List (Fin 10)) : Text :=
  ds.map fun d : Fin 10 => Nat.digitChar d

/-- The number with these digits, of which the last one counts ones. -/
def number (ds : List (Fin 10)) : Nat :=
  Nat.ofDigits 10 (ds.reverse.map Fin.val)

theorem number_append (as bs : List (Fin 10)) :
    number (as ++ bs) = number as * 10 ^ bs.length + number bs := by
  rw [number, List.reverse_append, List.map_append, Nat.ofDigits_append, List.length_map,
    List.length_reverse, add_comm, mul_comm]
  rfl

theorem number_append_pair (ds : List (Fin 10)) (a b : Fin 10) :
    number (ds ++ [a, b]) = 100 * number ds + 10 * a + b := by
  have hpair : number [a, b] = b + 10 * a := by simp [number, Nat.ofDigits]
  rw [number_append, hpair]
  simp only [List.length_cons, List.length_nil]
  omega

/-- A text is the text of one list of digits only. -/
theorem written_injective : Function.Injective written := by
  refine List.map_injective_iff.2 fun a b h => ?_
  revert a b
  decide

theorem exists_digitChar {c : Char} (h : isDigit c = true) : ∃ d : Fin 10, Nat.digitChar d = c := by
  obtain ⟨hlow, hhigh⟩ := toNat_of_isDigit h
  have hlt : c.toNat - 48 < 10 := by omega
  refine ⟨⟨c.toNat - 48, hlt⟩, Char.toNat_inj.1 ?_⟩
  rw [Nat.toNat_digitChar_of_lt_ten hlt]
  exact Nat.add_sub_of_le hlow

theorem isDigit_of_mem_written {ds : List (Fin 10)} {c : Char} (h : c ∈ written ds) :
    isDigit c = true := by
  obtain ⟨d, -, rfl⟩ := List.mem_map.1 h
  exact isDigit_digitChar d.isLt

theorem exists_written {t : Text} (h : ∀ c ∈ t, isDigit c = true) : ∃ ds, written ds = t := by
  induction t with
  | nil => exact ⟨[], rfl⟩
  | cons c t ih =>
    obtain ⟨hc, ht⟩ := List.forall_mem_cons.1 h
    obtain ⟨d, rfl⟩ := exists_digitChar hc
    obtain ⟨ds, rfl⟩ := ih ht
    exact ⟨d :: ds, rfl⟩

/-- A run of digits is the text of at least one digit. -/
theorem isDigits_iff {t : Text} : IsDigits t ↔ ∃ ds, t = written ds ∧ ds ≠ [] := by
  constructor
  · rintro ⟨hne, hdigits⟩
    obtain ⟨ds, rfl⟩ := exists_written hdigits
    exact ⟨ds, rfl, fun h => hne (List.map_eq_nil_iff.2 h)⟩
  · rintro ⟨ds, rfl, hne⟩
    exact ⟨fun h => hne (List.map_eq_nil_iff.1 h), fun c => isDigit_of_mem_written⟩

/-- What is read from digits is their number. -/
theorem value_written (ds : List (Fin 10)) : value (written ds) = number ds := by
  induction ds using List.reverseRecOn with
  | nil => rfl
  | append_singleton ds d ih =>
    have hd : (Nat.digitChar d).toNat - '0'.toNat = d := by
      rw [Nat.toNat_digitChar_of_lt_ten d.isLt]
      exact Nat.add_sub_cancel_left 48 d
    rw [written, List.map_append, value, List.foldl_append]
    change 10 * value (written ds) + ((Nat.digitChar d).toNat - '0'.toNat) = _
    rw [ih, hd, number_append, mul_comm]
    rfl

theorem natural?_eq_some_iff_written {t : Text} {n : Nat} :
    natural? t = some n ↔ ∃ ds, t = written ds ∧ ds ≠ [] ∧ n = number ds := by
  rw [natural?_eq_some_iff, isDigits_iff]
  constructor
  · rintro ⟨⟨ds, rfl, hne⟩, rfl⟩
    exact ⟨ds, rfl, hne, value_written ds⟩
  · rintro ⟨ds, rfl, hne, rfl⟩
    exact ⟨⟨ds, rfl, hne⟩, value_written ds⟩

/-! ## Integers -/

/-- The text is a literal of the integer: at least one digit, any number of which may be zeros in
front, perhaps after one sign. -/
def IsInteger (t : Text) (n : Int) : Prop :=
  ∃ sign ds, t = sign ++ written ds ∧ ds ≠ [] ∧
    ((sign = [] ∨ sign = ['+']) ∧ n = number ds ∨ sign = ['-'] ∧ n = -number ds)

/-- What is read as an integer is a literal of it. -/
theorem signed?_eq_some_iff {t : Text} {n : Int} : signed? t = some n ↔ IsInteger t n := by
  constructor
  · intro h
    unfold signed? at h
    split at h
    · obtain ⟨_, h', rfl⟩ := Option.map_eq_some_iff.1 h
      obtain ⟨m, hm, hcast⟩ := Option.bind_eq_some_iff.1 h'
      obtain rfl := Option.some.inj hcast
      obtain ⟨ds, rfl, hne, rfl⟩ := natural?_eq_some_iff_written.1 hm
      exact ⟨['-'], ds, rfl, hne, Or.inr ⟨rfl, rfl⟩⟩
    · obtain ⟨m, hm, rfl⟩ := Option.map_eq_some_iff.1 h
      obtain ⟨ds, rfl, hne, rfl⟩ := natural?_eq_some_iff_written.1 hm
      exact ⟨['+'], ds, rfl, hne, Or.inl ⟨Or.inr rfl, rfl⟩⟩
    · obtain ⟨m, hm, rfl⟩ := Option.map_eq_some_iff.1 h
      obtain ⟨ds, rfl, hne, rfl⟩ := natural?_eq_some_iff_written.1 hm
      exact ⟨[], ds, rfl, hne, Or.inl ⟨Or.inl rfl, rfl⟩⟩
  · rintro ⟨sign, ds, rfl, hne, hsign⟩
    have hread : natural? (written ds) = some (number ds) :=
      natural?_eq_some_iff_written.2 ⟨ds, rfl, hne, rfl⟩
    rcases hsign with ⟨rfl | rfl, rfl⟩ | ⟨rfl, rfl⟩
    · rw [List.nil_append, signed?_of_isDigits (isDigits_iff.2 ⟨ds, rfl, hne⟩), hread]
      rfl
    · rw [List.singleton_append, signed?, hread]
      rfl
    · rw [List.singleton_append, signed?, hread]
      rfl

/-! ## Words -/

theorem wordLimit_eq : wordLimit = 2 ^ 64 := by
  decide

theorem fit?_eq_some_iff {m n : Nat} : fit? m = some n ↔ m = n ∧ n < wordLimit := by
  rw [fit?, Option.ite_none_right_eq_some, Option.some_inj]
  constructor
  · rintro ⟨hm, rfl⟩
    exact ⟨rfl, hm⟩
  · rintro ⟨rfl, hn⟩
    exact ⟨hn, rfl⟩

/-- The text is a literal of the unsigned 64-bit number `n`: digits, perhaps after a plus sign. -/
def IsWord (t : Text) (n : Nat) : Prop :=
  ∃ ds, (t = ds ∨ t = '+' :: ds) ∧ IsDigits ds ∧ value ds = n ∧ n < wordLimit

theorem unsigned?_eq_some_iff {t : Text} {n : Nat} :
    unsigned? t = some n ↔ ∃ ds, (t = ds ∨ t = '+' :: ds) ∧ IsDigits ds ∧ value ds = n := by
  have hplus : ∀ ds, ¬IsDigits ('+' :: ds) := fun ds h =>
    absurd (h.2 '+' List.mem_cons_self) (by decide)
  unfold unsigned?
  split
  · next u =>
    rw [natural?_eq_some_iff]
    constructor
    · exact fun h => ⟨u, Or.inr rfl, h⟩
    · rintro ⟨ds, rfl | hds, h⟩
      · exact absurd h.1 (hplus u)
      · exact (List.cons.inj hds).2 ▸ h
  · next hsign =>
    rw [natural?_eq_some_iff]
    constructor
    · exact fun h => ⟨t, Or.inl rfl, h⟩
    · rintro ⟨ds, rfl | hds, h⟩
      · exact h
      · exact absurd hds (hsign ds)

theorem word?_eq_some_iff {t : Text} {n : Nat} : word? t = some n ↔ IsWord t n := by
  rw [word?, Option.filter_eq_some_iff, unsigned?_eq_some_iff, decide_eq_true_eq]
  constructor
  · rintro ⟨⟨ds, hds, hdigits, hn⟩, hlt⟩
    exact ⟨ds, hds, hdigits, hn, hlt⟩
  · rintro ⟨ds, hds, hdigits, hn, hlt⟩
    exact ⟨⟨ds, hds, hdigits, hn⟩, hlt⟩

theorem IsWord.lt {t : Text} {n : Nat} (h : IsWord t n) : n < wordLimit := by
  obtain ⟨ds, -, -, -, hlt⟩ := h
  exact hlt

end ReportTally.Numeral
