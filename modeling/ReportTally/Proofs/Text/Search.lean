import Mathlib.Data.List.Infix
import Mathlib.Data.List.TakeWhile
import ReportTally.Text.Search

/-!
# Occurrences and pieces

`Text.occurrences needle t` counts the positions of `t` at which `needle` occurs, overlaps
included. `Text.cutAt?` cuts at the first of them (`cutAt?_eq_some_iff`). `Text.pieces` cuts from
left to right without overlaps, so in general it sees fewer.

A text whose first character does not return in it cannot overlap itself (`HeadOnce`). For such
a needle the pieces are one more than the occurrences (`length_pieces`), and there are two pieces
exactly if the needle occurs once, namely what stands before and after it (`pieces_eq_pair_iff`).

Of several texts, the first one with the needle has those without it in front
(`dropWhile_not_occurs_eq_cons_iff`).
-/

namespace ReportTally.Text

variable {needle t a b : Text}

/-- The number of positions at which `needle` occurs. -/
def occurrences (needle t : Text) : Nat :=
  t.tails.countP fun u => needle.isPrefixOf u

/-- The first character of the text occurs nowhere else in it. -/
def HeadOnce (t : Text) : Prop :=
  ∃ c r, t = c :: r ∧ c ∉ r

theorem HeadOnce.ne_nil (h : HeadOnce needle) : needle ≠ [] := by
  rintro rfl
  obtain ⟨c, r, h, -⟩ := h
  simp at h

/-! ## Counting occurrences -/

theorem occurrences_cons (needle : Text) (c : Char) (t : Text) :
    occurrences needle (c :: t) =
      occurrences needle t + if needle <+: c :: t then 1 else 0 := by
  rw [occurrences, List.tails_cons, List.countP_cons]
  simp [occurrences]

theorem occurrences_of_not_infix (h : ¬needle <:+: t) : occurrences needle t = 0 := by
  rw [occurrences, List.countP_eq_zero]
  intro u hu hp
  have hsuffix : u <:+ t := (List.mem_tails u t).1 hu
  exact h ((List.isPrefixOf_iff_prefix.1 hp).isInfix.trans hsuffix.isInfix)

/-- No occurrence starts at a character that is not the needle's first. -/
theorem occurrences_append_of_notMem {c : Char} {r : Text} (hc : c ∉ a) :
    occurrences (c :: r) (a ++ b) = occurrences (c :: r) b := by
  induction a with
  | nil => rfl
  | cons d a ih =>
    have hd : ¬(c :: r) <+: d :: (a ++ b) := by
      rintro ⟨u, hu⟩
      simp only [List.cons_append, List.cons.injEq] at hu
      exact hc (by simp [hu.1])
    rw [List.cons_append, occurrences_cons, if_neg hd, Nat.add_zero]
    exact ih fun h => hc (List.mem_cons_of_mem d h)

/-- An occurrence at the front is one occurrence more than in what follows it. -/
theorem occurrences_append_self (h : HeadOnce needle) :
    occurrences needle (needle ++ b) = occurrences needle b + 1 := by
  obtain ⟨c, r, rfl, hc⟩ := h
  rw [List.cons_append, occurrences_cons, if_pos (by simp), occurrences_append_of_notMem hc]

/-- If the needle occurs once, what follows it is determined. -/
theorem append_inj_of_occurrences_eq_one {a' b' : Text} (h : occurrences needle t = 1)
    (hab : t = a ++ needle ++ b) (hab' : t = a' ++ needle ++ b') : a = a' ∧ b = b' := by
  have mem : ∀ x y : Text, t = x ++ needle ++ y →
      needle ++ y ∈ t.tails.filter fun u => needle.isPrefixOf u := by
    intro x y hxy
    rw [List.mem_filter, List.mem_tails, hxy]
    exact ⟨⟨x, by simp⟩, by simp⟩
  rw [occurrences, List.countP_eq_length_filter, List.length_eq_one_iff] at h
  obtain ⟨u, hu⟩ := h
  have hb := mem a b hab
  have hb' := mem a' b' hab'
  rw [hu, List.mem_singleton] at hb hb'
  obtain rfl : b = b' := List.append_cancel_left (hb.trans hb'.symm)
  exact ⟨List.append_cancel_right (List.append_cancel_right (hab.symm.trans hab')), rfl⟩

/-! ## The first occurrence -/

theorem positionFrom_succ (needle : Text) (n : Nat) (t : Text) :
    positionFrom needle (n + 1) t = (positionFrom needle n t).map (· + 1) := by
  induction t generalizing n with
  | nil =>
    unfold positionFrom
    split <;> rfl
  | cons c t ih =>
    unfold positionFrom
    split
    · rfl
    · exact ih (n + 1)

theorem cutAt?_nil (h : needle ≠ []) : cutAt? needle [] = none := by
  simp [cutAt?, position?, positionFrom, h]

theorem cutAt?_cons (needle : Text) (c : Char) (t : Text) :
    cutAt? needle (c :: t) =
      if needle <+: c :: t then some ([], (c :: t).drop needle.length)
      else (cutAt? needle t).map fun p => (c :: p.1, p.2) := by
  unfold cutAt? position?
  rw [positionFrom]
  split
  · next h => simp [List.isPrefixOf_iff_prefix.1 h]
  · next h =>
    rw [if_neg fun hp => h (List.isPrefixOf_iff_prefix.2 hp), positionFrom_succ]
    cases positionFrom needle 0 t with
    | none => rfl
    | some n => simp [Nat.add_right_comm n 1]

theorem cutAt?_eq_none_iff (hne : needle ≠ []) :
    cutAt? needle t = none ↔ ¬needle <:+: t := by
  induction t with
  | nil => simp [cutAt?_nil hne, hne]
  | cons c t ih =>
    rw [cutAt?_cons, List.infix_cons_iff]
    split
    · next h => simp [h]
    · next h => simp [h, ih]

/-- A cut takes out the needle and nothing else. -/
theorem eq_append_of_cutAt? (h : cutAt? needle t = some (a, b)) : t = a ++ needle ++ b := by
  induction t generalizing a with
  | nil =>
    by_cases hne : needle = []
    · subst hne
      simp_all [cutAt?, position?, positionFrom]
    · simp [cutAt?_nil hne] at h
  | cons c t ih =>
    rw [cutAt?_cons] at h
    split at h
    · next hp =>
      obtain ⟨u, hu⟩ := hp
      obtain ⟨rfl, rfl⟩ := Prod.mk.inj (Option.some.inj h)
      simp [← hu]
    · obtain ⟨⟨x, y⟩, hxy, he⟩ := Option.map_eq_some_iff.1 h
      obtain ⟨rfl, rfl⟩ := Prod.mk.inj he
      rw [ih hxy]
      rfl

/-- A cut is made at the first occurrence. -/
theorem length_le_of_cutAt? (h : cutAt? needle t = some (a, b)) {a' b' : Text}
    (ht : t = a' ++ needle ++ b') : a.length ≤ a'.length := by
  induction t generalizing a a' with
  | nil =>
    have hcut := eq_append_of_cutAt? h
    rw [eq_comm, List.append_eq_nil_iff, List.append_eq_nil_iff] at hcut
    rw [hcut.1.1]
    exact Nat.zero_le _
  | cons c t ih =>
    rw [cutAt?_cons] at h
    split at h
    · obtain ⟨rfl, -⟩ := Prod.mk.inj (Option.some.inj h)
      exact Nat.zero_le _
    · next hp =>
      obtain ⟨⟨x, y⟩, hxy, he⟩ := Option.map_eq_some_iff.1 h
      obtain ⟨rfl, rfl⟩ := Prod.mk.inj he
      cases a' with
      | nil => exact absurd ⟨b', ht.symm⟩ hp
      | cons d a' => exact Nat.succ_le_succ (ih hxy (List.cons.inj ht).2)

/-- The cut is the occurrence of the needle with the least text before it. -/
theorem cutAt?_eq_some_iff (hne : needle ≠ []) : cutAt? needle t = some (a, b) ↔
    t = a ++ needle ++ b ∧ ∀ a' b', t = a' ++ needle ++ b' → a.length ≤ a'.length := by
  refine ⟨fun h => ⟨eq_append_of_cutAt? h, fun _ _ => length_le_of_cutAt? h⟩, ?_⟩
  rintro ⟨hab, hleast⟩
  cases hcut : cutAt? needle t with
  | none => exact absurd ⟨a, b, hab.symm⟩ ((cutAt?_eq_none_iff hne).1 hcut)
  | some p =>
    obtain ⟨x, y⟩ := p
    have hxy := eq_append_of_cutAt? hcut
    have hlen : x.length = a.length :=
      le_antisymm (length_le_of_cutAt? hcut hab) (hleast x y hxy)
    rw [hab, List.append_assoc, List.append_assoc] at hxy
    obtain ⟨rfl, hrest⟩ := List.append_inj hxy hlen.symm
    rw [List.append_cancel_left hrest]

/-- A cut is made at the first occurrence, so all the other ones stand after it. -/
theorem occurrences_of_cutAt? (hn : HeadOnce needle) (h : cutAt? needle t = some (a, b)) :
    occurrences needle t = occurrences needle b + 1 := by
  induction t generalizing a with
  | nil => simp [cutAt?_nil hn.ne_nil] at h
  | cons c t ih =>
    rw [cutAt?_cons] at h
    split at h
    · next hp =>
      obtain ⟨u, hu⟩ := hp
      obtain ⟨-, rfl⟩ := Prod.mk.inj (Option.some.inj h)
      simp [← hu, occurrences_append_self hn]
    · next hp =>
      obtain ⟨⟨x, y⟩, hxy, he⟩ := Option.map_eq_some_iff.1 h
      obtain ⟨-, rfl⟩ := Prod.mk.inj he
      rw [occurrences_cons, if_neg hp, ih hxy]

/-! ## The start of a text -/

theorem dropLead?_eq_some_iff : dropLead? needle t = some b ↔ t = needle ++ b := by
  rw [dropLead?]
  constructor
  · intro h
    split_ifs at h with hp
    obtain ⟨u, rfl⟩ := List.isPrefixOf_iff_prefix.1 hp
    rw [List.drop_left] at h
    rw [Option.some.inj h]
  · rintro rfl
    simp

theorem dropLead?_eq_none_iff : dropLead? needle t = none ↔ ¬needle <+: t := by
  simp [dropLead?]

/-! ## The first of several texts -/

theorem dropWhile_not_occurs_eq_nil_iff {ts : List Text} :
    ts.dropWhile (!occurs needle ·) = [] ↔ ∀ u ∈ ts, ¬needle <:+: u := by
  rw [List.dropWhile_eq_nil_iff]
  simp only [Bool.not_eq_true', occurs_eq_false_iff]

/-- What starts with the first text in which the needle occurs. -/
theorem dropWhile_not_occurs_eq_cons_iff {ts post : List Text} :
    ts.dropWhile (!occurs needle ·) = t :: post ↔
      ∃ pre, ts = pre ++ t :: post ∧ (∀ u ∈ pre, ¬needle <:+: u) ∧ needle <:+: t := by
  constructor
  · intro h
    refine ⟨ts.takeWhile (!occurs needle ·), ?_, fun u hu => ?_, ?_⟩
    · rw [← h, List.takeWhile_append_dropWhile]
    · simpa [occurs_eq_false_iff] using List.mem_takeWhile_imp hu
    · have hhead := List.head_dropWhile_not (!occurs needle ·) (l := ts) (by simp [h])
      simpa [h, occurs_iff] using hhead
  · rintro ⟨pre, rfl, hpre, ht⟩
    rw [List.dropWhile_append_of_pos fun u hu => by simpa [occurs_eq_false_iff] using hpre u hu,
      List.dropWhile_cons_of_neg (by simpa [occurs_iff] using ht)]

/-! ## Pieces -/

theorem pieces_of_cutAt?_eq_none (h : cutAt? needle t = none) : pieces needle t = [t] := by
  rw [pieces, h]

theorem pieces_of_cutAt?_eq_some (hne : needle ≠ []) (h : cutAt? needle t = some (a, b)) :
    pieces needle t = a :: pieces needle b := by
  have hlen : b.length < t.length := by
    have := List.length_pos_iff.2 hne
    rw [eq_append_of_cutAt? h]
    simp only [List.length_append]
    omega
  rw [pieces, h]
  exact if_pos hlen

/-- Cutting at a needle that cannot overlap itself misses no occurrence. -/
theorem length_pieces (hn : HeadOnce needle) (t : Text) :
    (pieces needle t).length = occurrences needle t + 1 := by
  induction hlen : t.length using Nat.strong_induction_on generalizing t with
  | h n ih =>
    cases hcut : cutAt? needle t with
    | none =>
      rw [pieces_of_cutAt?_eq_none hcut,
        occurrences_of_not_infix ((cutAt?_eq_none_iff hn.ne_nil).1 hcut)]
      rfl
    | some p =>
      obtain ⟨a, b⟩ := p
      have hlt : b.length < n := by
        have := List.length_pos_iff.2 hn.ne_nil
        rw [← hlen, eq_append_of_cutAt? hcut]
        simp only [List.length_append]
        omega
      rw [pieces_of_cutAt?_eq_some hn.ne_nil hcut, List.length_cons, ih _ hlt b rfl,
        occurrences_of_cutAt? hn hcut]

/-- There are two pieces exactly if the needle occurs once: what stands before and after it. -/
theorem pieces_eq_pair_iff (hn : HeadOnce needle) :
    pieces needle t = [a, b] ↔ occurrences needle t = 1 ∧ t = a ++ needle ++ b := by
  have sound : ∀ x y, pieces needle t = [x, y] → t = x ++ needle ++ y := by
    intro x y h
    cases hcut : cutAt? needle t with
    | none => simp [pieces_of_cutAt?_eq_none hcut] at h
    | some p =>
      rw [pieces_of_cutAt?_eq_some hn.ne_nil hcut] at h
      obtain ⟨rfl, hrest⟩ := List.cons.inj h
      cases hcut' : cutAt? needle p.2 with
      | none =>
        rw [pieces_of_cutAt?_eq_none hcut', List.singleton_inj] at hrest
        rw [← hrest]
        exact eq_append_of_cutAt? hcut
      | some q =>
        have := congrArg List.length hrest
        rw [pieces_of_cutAt?_eq_some hn.ne_nil hcut', List.length_cons, length_pieces hn] at this
        simp at this
  constructor
  · intro h
    refine ⟨?_, sound a b h⟩
    have := length_pieces hn t
    rw [h] at this
    simpa using this.symm
  · rintro ⟨hone, hab⟩
    have hlen := length_pieces hn t
    rw [hone, List.length_eq_two] at hlen
    obtain ⟨x, y, hxy⟩ := hlen
    obtain ⟨rfl, rfl⟩ := append_inj_of_occurrences_eq_one hone hab (sound x y hxy)
    exact hxy

end ReportTally.Text
