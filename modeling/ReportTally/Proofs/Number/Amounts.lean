import ReportTally.Proofs.Number.Finite

/-!
# Finite floats without a sign

A float is an amount if it is finite and has no sign (`IsAmount`). Amounts are ordered as their
magnitude words are, so choosing between them from left to right ends with one that no other one
comes before (`foldl_choose`).

A ratio of counters that are not negative is an amount (`isAmount_ratio`): it is zero if the second
counter is zero, and otherwise a quotient by at least one.
-/

namespace ReportTally.Binary64

/-! ## Amounts -/

/-- A finite float without a sign. -/
def IsAmount (x : Float) : Prop :=
  ∃ word < infinity, x = ofSign false word

variable {x y z : Float}

theorem isAmount_zero : IsAmount 0 :=
  ⟨0, by decide, zero_eq_ofSign⟩

theorem isAmount_one : IsAmount 1 :=
  ⟨nearest 1 1, nearest_lt_infinity (by norm_num), one_eq_ofSign⟩

theorem IsAmount.isFinite (h : IsAmount x) : x.isFinite = true := by
  obtain ⟨word, hword, rfl⟩ := h
  rw [isFinite_iff, (sign_magnitude_ofSign false hword.le).2]
  exact hword

theorem IsAmount.lt_irrefl (h : IsAmount x) : ¬x < x := by
  obtain ⟨a, ha, rfl⟩ := h
  rw [ofSign_lt_ofSign ha.le ha.le]
  exact Nat.lt_irrefl a

theorem IsAmount.lt_trans (hx : IsAmount x) (hy : IsAmount y) (hz : IsAmount z) (hxy : x < y)
    (hyz : y < z) : x < z := by
  obtain ⟨a, ha, rfl⟩ := hx
  obtain ⟨b, hb, rfl⟩ := hy
  obtain ⟨c, hc, rfl⟩ := hz
  rw [ofSign_lt_ofSign ha.le hb.le] at hxy
  rw [ofSign_lt_ofSign hb.le hc.le] at hyz
  exact (ofSign_lt_ofSign ha.le hc.le).2 (Nat.lt_trans hxy hyz)

theorem ofSign_le_ofSign {a b : Nat} (ha : a ≤ infinity) (hb : b ≤ infinity) :
    ofSign false a ≤ ofSign false b ↔ a ≤ b := by
  rw [← Nat.isLE_compare]
  change decide ((ofSign false a).toModel.unpack.le (ofSign false b).toModel.unpack = true) =
    true ↔ _
  rw [Float.Model.UnpackedFloat.le, compare_ofSign ha hb, decide_eq_true_eq]
  rfl

theorem IsAmount.le_iff (hx : IsAmount x) (hy : IsAmount y) : x ≤ y ↔ ¬y < x := by
  obtain ⟨a, ha, rfl⟩ := hx
  obtain ⟨b, hb, rfl⟩ := hy
  rw [ofSign_le_ofSign ha.le hb.le, ofSign_lt_ofSign hb.le ha.le]
  exact Nat.not_lt.symm

theorem IsAmount.zero_le (h : IsAmount x) : 0 ≤ x := by
  obtain ⟨a, ha, rfl⟩ := h
  rw [zero_eq_ofSign, ofSign_le_ofSign (Nat.zero_le _) ha.le]
  exact Nat.zero_le a

theorem IsAmount.lt_of_lt_of_le (hx : IsAmount x) (hy : IsAmount y) (hz : IsAmount z) (hxy : x < y)
    (hyz : y ≤ z) : x < z := by
  obtain ⟨a, ha, rfl⟩ := hx
  obtain ⟨b, hb, rfl⟩ := hy
  obtain ⟨c, hc, rfl⟩ := hz
  rw [ofSign_lt_ofSign ha.le hb.le] at hxy
  rw [ofSign_le_ofSign hb.le hc.le] at hyz
  exact (ofSign_lt_ofSign ha.le hc.le).2 (Nat.lt_of_lt_of_le hxy hyz)

/-- Choosing the one that comes before the other, from left to right, ends with one that none comes
before. -/
theorem foldl_choose (before : Float → Float → Prop) [DecidableRel before]
    (choose : Option Float → Float → Option Float)
    (hirrefl : ∀ {x}, IsAmount x → ¬before x x)
    (htrans : ∀ {x y z}, IsAmount x → IsAmount y → IsAmount z → before x y → before y z →
      before x z)
    (hnone : ∀ x, choose none x = some x)
    (hsome : ∀ x y, choose (some x) y = some (if before y x then y else x))
    {xs : List Float} (hxs : ∀ x ∈ xs, IsAmount x) (hne : xs ≠ []) :
    ∃ m ∈ xs, xs.foldl choose none = some m ∧ ∀ x ∈ xs, ¬before x m := by
  induction xs using List.reverseRecOn with
  | nil => exact absurd rfl hne
  | append_singleton xs y ih =>
    obtain ⟨hxs', hy⟩ := List.forall_mem_append.1 hxs
    have hy' : IsAmount y := hy y (List.mem_singleton_self y)
    rw [List.foldl_append]
    rcases eq_or_ne xs [] with rfl | hne'
    · refine ⟨y, by simp, hnone y, ?_⟩
      simpa using hirrefl hy'
    obtain ⟨m, hm, hfold, hbest⟩ := ih hxs' hne'
    have hchoose : [y].foldl choose (xs.foldl choose none) = some (if before y m then y else m) := by
      rw [hfold]
      exact hsome m y
    rw [hchoose]
    split_ifs with hlt
    · refine ⟨y, by simp, rfl, List.forall_mem_append.2 ⟨fun x hx hxy => ?_, ?_⟩⟩
      · exact hbest x hx (htrans (hxs' x hx) hy' (hxs' m hm) hxy hlt)
      · simpa using hirrefl hy'
    · refine ⟨m, List.mem_append_left _ hm, rfl, List.forall_mem_append.2 ⟨hbest, ?_⟩⟩
      simpa using hlt

/-! ## Ratios of counters -/

/-- A ratio to a counter is a quotient, or zero if the counter is zero. -/
theorem ratio_ofCounter (x : Float) (n : Counter) :
    ratio x (ofCounter n) = if n = 0 then 0 else x / ofCounter n := by
  have hword := magnitude_ofCounter n
  have hzero : (ofCounter n == 0) = true ↔ n = 0 := by
    rw [beq_zero_iff (hword ▸ nearest_le_infinity _ _), hword, nearest_eq_zero_iff,
      Int.natAbs_eq_zero, ← Int64.toInt_zero, Int64.toInt_inj]
  simp only [ratio, hzero]

/-- A ratio of counters that are not negative is a finite float without a sign. -/
theorem isAmount_ratio {m n : Counter} (hm : 0 ≤ m.toInt) (hn : 0 ≤ n.toInt) :
    IsAmount (ratio (ofCounter m) (ofCounter n)) := by
  rw [ratio_ofCounter]
  split_ifs with hzero
  · exact isAmount_zero
  have hne : n.toInt ≠ 0 := fun h => hzero (Int64.toInt_inj.1 h)
  have ha := nearest_lt_infinity (natAbs_lt_of_counter m)
  have hb := nearest_lt_infinity (natAbs_lt_of_counter n)
  have hb' : 0 < nearest n.toInt.natAbs 1 := nearest_pos (by omega)
  rw [ofCounter_of_nonneg hm, ofCounter_of_nonneg hn]
  rcases Nat.eq_zero_or_pos (nearest m.toInt.natAbs 1) with ha' | ha'
  · rw [ha', zero_div_ofSign hb' hb, ← zero_eq_ofSign]
    exact isAmount_zero
  · obtain ⟨p, q, hp, hq, hquot⟩ := exists_div_eq ha' hb'
    have hone := (nearest_eq_zero_or_one_le n.toInt.natAbs).resolve_left hb'.ne'
    exact ⟨nearest p q, (nearest_div_le ha.le hone hq hquot).trans_lt ha,
      ofSign_div_ofSign ha' ha hb' hb hp hq hquot⟩

end ReportTally.Binary64
