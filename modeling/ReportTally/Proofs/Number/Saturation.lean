import ReportTally.Number.Counter

/-!
# Totals of counters

`Counter.total` adds counters up from left to right and stops at the ends of the range on the way.
Its value is compared with the exact sum `Counter.exact`, which is the sum of what the counters
gain and what they lose (`exact_eq`).

* If the counters only gain or only lose, or if neither the gains nor the losses alone leave the
  range, the total is the exact sum moved into the range (`toInt_total`). It then does not depend
  on the order.
* In any other case it does: all gains before all losses give another total than all losses before
  all gains (`unordered_of_total_eq`). So `Unordered` is the exact condition.
* Counters that only gain may be added up in groups (`toInt_total_map_total`).
-/

namespace ReportTally.Counter

/-! ## Gains, losses and the exact sum -/

/-- The counters added up from left to right. -/
def total (xs : List Counter) : Counter :=
  xs.foldl add 0

/-- The sum without ends of a range. -/
def exact (xs : List Counter) : Int :=
  xs.foldr (fun x n => x.toInt + n) 0

/-- The counters that gain. -/
def rising (xs : List Counter) : List Counter :=
  xs.filter fun x => 0 < x.toInt

/-- The counters that do not gain. -/
def falling (xs : List Counter) : List Counter :=
  xs.filter fun x => !(0 < x.toInt)

/-- What the counters gain. -/
def gains (xs : List Counter) : Int :=
  exact (rising xs)

/-- What the counters lose, as a negative number. -/
def losses (xs : List Counter) : Int :=
  exact (falling xs)

@[simp] theorem exact_nil : exact [] = 0 :=
  rfl

@[simp] theorem gains_nil : gains [] = 0 :=
  rfl

@[simp] theorem losses_nil : losses [] = 0 :=
  rfl

@[simp] theorem exact_cons (x : Counter) (xs : List Counter) :
    exact (x :: xs) = x.toInt + exact xs :=
  rfl

@[simp] theorem gains_cons (x : Counter) (xs : List Counter) :
    gains (x :: xs) = max x.toInt 0 + gains xs := by
  unfold gains rising
  by_cases hx : 0 < x.toInt
  · rw [List.filter_cons_of_pos (by simpa using hx), exact_cons]
    omega
  · rw [List.filter_cons_of_neg (by simpa using hx)]
    omega

@[simp] theorem losses_cons (x : Counter) (xs : List Counter) :
    losses (x :: xs) = min x.toInt 0 + losses xs := by
  unfold losses falling
  by_cases hx : 0 < x.toInt
  · rw [List.filter_cons_of_neg (by simpa using hx)]
    omega
  · rw [List.filter_cons_of_pos (by simpa using hx), exact_cons]
    omega

theorem exact_append (xs ys : List Counter) : exact (xs ++ ys) = exact xs + exact ys := by
  induction xs with
  | nil => simp
  | cons x xs ih =>
    rw [List.cons_append, exact_cons, exact_cons, ih]
    omega

theorem exact_perm {xs ys : List Counter} (h : xs.Perm ys) : exact xs = exact ys := by
  induction h with
  | nil => rfl
  | cons x _ ih => rw [exact_cons, exact_cons, ih]
  | swap x y xs =>
    simp only [exact_cons]
    omega
  | trans _ _ ih₁ ih₂ => exact ih₁.trans ih₂

theorem exact_eq (xs : List Counter) : exact xs = gains xs + losses xs := by
  rw [gains, losses, ← exact_append]
  exact (exact_perm (List.filter_append_perm _ xs)).symm

theorem exact_nonneg {xs : List Counter} (h : ∀ x ∈ xs, 0 ≤ x.toInt) : 0 ≤ exact xs := by
  induction xs with
  | nil => simp
  | cons x xs ih =>
    have hx := h x List.mem_cons_self
    have hxs := ih fun y hy => h y (List.mem_cons_of_mem x hy)
    rw [exact_cons]
    omega

theorem exact_nonpos {xs : List Counter} (h : ∀ x ∈ xs, x.toInt ≤ 0) : exact xs ≤ 0 := by
  induction xs with
  | nil => simp
  | cons x xs ih =>
    have hx := h x List.mem_cons_self
    have hxs := ih fun y hy => h y (List.mem_cons_of_mem x hy)
    rw [exact_cons]
    omega

theorem pos_of_mem_rising {x : Counter} {xs : List Counter} (h : x ∈ rising xs) : 0 < x.toInt := by
  simpa using (List.mem_filter.1 h).2

theorem nonpos_of_mem_falling {x : Counter} {xs : List Counter} (h : x ∈ falling xs) :
    x.toInt ≤ 0 := by
  simpa using (List.mem_filter.1 h).2

theorem gains_nonneg (xs : List Counter) : 0 ≤ gains xs :=
  exact_nonneg fun _ hx => Int.le_of_lt (pos_of_mem_rising hx)

theorem losses_nonpos (xs : List Counter) : losses xs ≤ 0 :=
  exact_nonpos fun _ hx => nonpos_of_mem_falling hx

theorem losses_eq_zero {xs : List Counter} (h : ∀ x ∈ xs, 0 ≤ x.toInt) : losses xs = 0 := by
  have hl := losses_nonpos xs
  have hl' : 0 ≤ losses xs := exact_nonneg fun x hx => h x (List.mem_filter.1 hx).1
  omega

theorem gains_eq_zero {xs : List Counter} (h : ∀ x ∈ xs, x.toInt ≤ 0) : gains xs = 0 := by
  have hg := gains_nonneg xs
  have hg' : gains xs ≤ 0 := exact_nonpos fun x hx => h x (List.mem_filter.1 hx).1
  omega

/-! ## From left to right -/

/-- Partial sums that move in one direction leave the range at most once. -/
theorem toInt_foldl_add_of_one_sign {xs : List Counter} (h : gains xs = 0 ∨ losses xs = 0)
    (a : Counter) : (xs.foldl add a).toInt = clamp (a.toInt + exact xs) := by
  have hlow := least_le_toInt a
  have hhigh := toInt_le_greatest a
  induction xs generalizing a with
  | nil =>
    simp only [List.foldl_nil, exact_nil, clamp]
    omega
  | cons x xs ih =>
    have hg := gains_nonneg xs
    have hl := losses_nonpos xs
    have he := exact_eq xs
    simp only [gains_cons, losses_cons] at h
    rw [List.foldl_cons, ih (by omega) _ (least_le_toInt _) (toInt_le_greatest _), toInt_add,
      exact_cons]
    simp only [clamp, least, greatest] at *
    omega

/-- Partial sums that cannot leave the range are exact. -/
theorem toInt_foldl_add_of_fits {xs : List Counter} {a : Counter}
    (hg : a.toInt + gains xs ≤ greatest) (hl : least ≤ a.toInt + losses xs) :
    (xs.foldl add a).toInt = a.toInt + exact xs := by
  induction xs generalizing a with
  | nil => simp
  | cons x xs ih =>
    have hg' := gains_nonneg xs
    have hl' := losses_nonpos xs
    rw [gains_cons] at hg
    rw [losses_cons] at hl
    have hx : (add a x).toInt = a.toInt + x.toInt := by
      rw [toInt_add, clamp]
      omega
    rw [List.foldl_cons, ih (by omega) (by omega), hx, exact_cons]
    omega

/-- The total cannot depend on the order: the counters have one sign, or neither the gains nor the
losses alone leave the range. -/
def Unordered (xs : List Counter) : Prop :=
  losses xs = 0 ∨ gains xs = 0 ∨ gains xs ≤ greatest ∧ least ≤ losses xs

instance (xs : List Counter) : Decidable (Unordered xs) :=
  inferInstanceAs (Decidable (_ ∨ _ ∨ _ ∧ _))

theorem toInt_total {xs : List Counter} (h : Unordered xs) :
    (total xs).toInt = clamp (exact xs) := by
  rcases h with h | h | ⟨hg, hl⟩
  · simpa [total] using toInt_foldl_add_of_one_sign (Or.inr h) 0
  · simpa [total] using toInt_foldl_add_of_one_sign (Or.inl h) 0
  · have hfits := toInt_foldl_add_of_fits (a := 0) (by simpa using hg) (by simpa using hl)
    have hg' := gains_nonneg xs
    have hl' := losses_nonpos xs
    have he := exact_eq xs
    rw [total, hfits, Int64.toInt_zero, clamp]
    omega

/-! ## Order -/

theorem total_eq_of_perm {xs ys : List Counter} (h : Unordered xs) (hp : ys.Perm xs) :
    total ys = total xs := by
  have hgains : gains ys = gains xs := exact_perm (hp.filter _)
  have hlosses : losses ys = losses xs := exact_perm (hp.filter _)
  have h' : Unordered ys := by
    unfold Unordered
    rwa [hgains, hlosses]
  rw [← Int64.toInt_inj, toInt_total h', toInt_total h, exact_perm hp]

/-- If all gains before all losses give the same total as all losses before all gains, no order
gives another one. -/
theorem unordered_of_total_eq {xs : List Counter}
    (h : total (rising xs ++ falling xs) = total (falling xs ++ rising xs)) : Unordered xs := by
  have hrising : losses (rising xs) = 0 :=
    losses_eq_zero fun x hx => Int.le_of_lt (pos_of_mem_rising hx)
  have hfalling : gains (falling xs) = 0 := gains_eq_zero fun x hx => nonpos_of_mem_falling hx
  have hup : ∀ a, ((rising xs).foldl add a).toInt = clamp (a.toInt + gains xs) :=
    toInt_foldl_add_of_one_sign (Or.inr hrising)
  have hdown : ∀ a, ((falling xs).foldl add a).toInt = clamp (a.toInt + losses xs) :=
    toInt_foldl_add_of_one_sign (Or.inl hfalling)
  have hg := gains_nonneg xs
  have hl := losses_nonpos xs
  rw [total, total, List.foldl_append, List.foldl_append, ← Int64.toInt_inj, hdown, hup, hup, hdown,
    Int64.toInt_zero] at h
  simp only [Unordered, clamp, least, greatest] at *
  omega

/-! ## Counters that only gain -/

theorem toInt_add_of_nonneg {a b : Counter} (ha : 0 ≤ a.toInt) (hb : 0 ≤ b.toInt) :
    (add a b).toInt = min greatest (a.toInt + b.toInt) := by
  rw [toInt_add, clamp, least, greatest]
  omega

theorem toInt_total_of_nonneg {xs : List Counter} (h : ∀ x ∈ xs, 0 ≤ x.toInt) :
    (total xs).toInt = min greatest (exact xs) := by
  have := exact_nonneg h
  rw [toInt_total (Or.inl (losses_eq_zero h))]
  simp only [clamp, least, greatest]
  omega

/-- Totals of groups add up to the total of all, wherever a group or their sum stops at the end
of the range. -/
theorem toInt_total_map_total {xss : List (List Counter)}
    (h : ∀ xs ∈ xss, ∀ x ∈ xs, 0 ≤ x.toInt) :
    (total (xss.map total)).toInt = min greatest (exact xss.flatten) := by
  have total_nonneg : ∀ xs ∈ xss, 0 ≤ (total xs).toInt := by
    intro xs hxs
    have := exact_nonneg (h xs hxs)
    rw [toInt_total_of_nonneg (h xs hxs)]
    simp only [greatest]
    omega
  rw [toInt_total_of_nonneg (List.forall_mem_map.2 total_nonneg)]
  induction xss with
  | nil => rfl
  | cons xs xss ih =>
    have hmem : ∀ ys ∈ xss, ys ∈ xs :: xss := fun ys => List.mem_cons_of_mem xs
    have hrest := ih (fun ys hys => h ys (hmem ys hys)) fun ys hys => total_nonneg ys (hmem ys hys)
    have hhead := toInt_total_of_nonneg (h xs List.mem_cons_self)
    have hxs := exact_nonneg (h xs List.mem_cons_self)
    have hflat : 0 ≤ exact xss.flatten := exact_nonneg fun x hx => by
      obtain ⟨ys, hys, hy⟩ := List.mem_flatten.1 hx
      exact h ys (hmem ys hys) x hy
    have htotals : 0 ≤ exact (xss.map total) :=
      exact_nonneg (List.forall_mem_map.2 fun ys hys => total_nonneg ys (hmem ys hys))
    rw [List.map_cons, exact_cons, hhead, List.flatten_cons, exact_append]
    omega

end ReportTally.Counter
