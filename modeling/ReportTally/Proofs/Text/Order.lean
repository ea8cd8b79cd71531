import Mathlib.Data.List.Lex
import Mathlib.Order.Defs.LinearOrder
import ReportTally.Text.Utf8

/-!
# The order of texts

`Text.le` is the lexicographic order of lists of characters (`le_iff`), so names can be sorted
by it. UTF-8 keeps this order: where two characters differ, their bytes part at a smaller and a
greater byte (`partsBelow_utf8EncodeChar`), so the bytes of texts compare as the texts do
(`Utf8.encode_lt_encode`).
-/

namespace ReportTally

namespace Text

theorem le_iff {s t : Text} : le s t = true ↔ ¬t < s := by
  induction s generalizing t with
  | nil => simp [le]
  | cons c s ih =>
    cases t with
    | nil => simp [le]
    | cons d t =>
      have hlt : ∀ c d : Char, c < d ↔ c.toNat < d.toNat := fun _ _ => Iff.rfl
      simp only [le, Bool.or_eq_true, Bool.and_eq_true, decide_eq_true_eq, ih,
        List.cons_lt_cons_iff, hlt, ← Char.toNat_inj]
      by_cases hts : t < s <;>
        simp only [hts, not_true, not_false_eq_true, and_true, and_false, or_false] <;> omega

theorem le_trans (s t u : Text) (h : le s t = true) (h' : le t u = true) : le s u = true :=
  le_iff.2 (List.not_lt.2 (List.le_trans (List.not_lt.1 (le_iff.1 h)) (List.not_lt.1 (le_iff.1 h'))))

theorem le_antisymm {s t : Text} (h : le s t = true) (h' : le t s = true) : s = t :=
  List.le_antisymm (List.not_lt.1 (le_iff.1 h)) (List.not_lt.1 (le_iff.1 h'))

theorem le_total (s t : Text) : (le s t || le t s) = true := by
  rw [Bool.or_eq_true, le_iff, le_iff, List.not_lt, List.not_lt]
  exact List.le_total s t

theorem ne_of_lt {s t : Text} (h : s < t) : s ≠ t := by
  rintro rfl
  exact List.lt_irrefl s h

theorem lt_of_not_le {s t : Text} (h : ¬le s t = true) : t < s := by
  rwa [le_iff, not_not] at h

theorem lt_of_le_of_ne {s t : Text} (h : le s t = true) (hne : s ≠ t) : s < t := by
  by_contra hlt
  exact hne (le_antisymm h (le_iff.2 hlt))

end Text

namespace Utf8

/-- The bytes are equal up to a place where the first ones have the smaller byte. -/
def PartsBelow : Bytes → Bytes → Prop
  | a :: as, b :: bs => a < b ∨ a = b ∧ PartsBelow as bs
  | _, _ => False

theorem PartsBelow.append_lt {s t : Bytes} (h : PartsBelow s t) (u v : Bytes) :
    s ++ u < t ++ v := by
  induction s generalizing t with
  | nil => exact h.elim
  | cons a s ih =>
    cases t with
    | nil => exact h.elim
    | cons b t =>
      rw [List.cons_append, List.cons_append, List.cons_lt_cons_iff]
      exact h.imp id fun ⟨hab, hst⟩ => ⟨hab, ih hst⟩

theorem partsBelow_utf8EncodeChar {c d : Char} (h : c < d) :
    PartsBelow (String.utf8EncodeChar c) (String.utf8EncodeChar d) := by
  have hlt : c.val.toNat < d.val.toNat := h
  have hd : d.val.toNat < 0x110000 := by
    have := d.valid
    simp only [UInt32.isValidChar, Nat.isValidChar] at this
    omega
  simp only [String.utf8EncodeChar]
  generalize c.val.toNat = m at *
  generalize d.val.toNat = n at *
  -- by the numbers of bytes of the two characters
  split_ifs <;>
    simp only [PartsBelow, UInt8.lt_iff_toNat_lt, ← UInt8.toNat_inj, UInt8.toNat_ofNat'] <;>
    simp (disch := omega) only [Nat.mod_eq_of_lt] <;>
    omega

/-- The bytes of texts compare as the texts do. -/
theorem encode_lt_encode {s t : Text} (h : s < t) : encode s < encode t := by
  induction s generalizing t with
  | nil =>
    cases t with
    | nil => exact absurd h (List.not_lt_nil [])
    | cons d t =>
      obtain ⟨b, bs, hb⟩ := List.exists_cons_of_ne_nil (String.utf8EncodeChar_ne_nil (c := d))
      simp [encode, hb]
  | cons c s ih =>
    cases t with
    | nil => exact absurd h (List.not_lt_nil _)
    | cons d t =>
      rw [encode, encode, List.flatMap_cons, List.flatMap_cons]
      rcases List.cons_lt_cons_iff.1 h with hcd | ⟨rfl, hst⟩
      · exact (partsBelow_utf8EncodeChar hcd).append_lt _ _
      · exact List.append_left_lt (ih hst)

end Utf8

end ReportTally
