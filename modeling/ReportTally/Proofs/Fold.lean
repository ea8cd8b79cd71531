/-!
# Folds that may stop

A report is read line by line and a folder report by report, and either stops at the first flaw.

* `FirstError` says which flaw that is, without a fold: the one of the first element that has
  one. If whether a step fails does not depend on what was read before, a fold fails with the
  first error and otherwise succeeds (`foldlM_eq_error_iff`, `foldlM_eq_ok_or_firstError`).
* What a successful fold leaves in one part of its state is a plain fold, if every step changes
  that part in a way that only this part decides (`foldlM_observe`). What every step preserves
  holds after the fold (`foldlM_preserves`).
-/

namespace ReportTally

variable {σ α ε γ : Type}

theorem exists_eq_ok_iff {x : Except ε α} : (∃ a, x = .ok a) ↔ x.isOk = true := by
  cases x <;> simp [Except.isOk, Except.toBool]

theorem exists_eq_ok_of_ne_error {x : Except ε α} (h : ∀ e, x ≠ .error e) : ∃ a, x = .ok a := by
  cases x with
  | ok a => exact ⟨a, rfl⟩
  | error e => exact absurd rfl (h e)

/-- Two steps succeed if the first one does and then the second one. -/
theorem bind_eq_ok_iff {x : Except ε α} {f : α → Except ε γ} {c : γ} :
    (x >>= f) = .ok c ↔ ∃ a, x = .ok a ∧ f a = .ok c := by
  cases x <;> simp [bind, Except.bind]

/-- The error of the first element that has one. -/
def FirstError (Wrong : α → ε → Prop) (xs : List α) (e : ε) : Prop :=
  ∃ pre x post, xs = pre ++ x :: post ∧ (∀ y ∈ pre, ∀ e', ¬Wrong y e') ∧ Wrong x e

theorem not_firstError_nil (Wrong : α → ε → Prop) (e : ε) : ¬FirstError Wrong [] e := by
  rintro ⟨pre, x, post, h, -⟩
  simp at h

theorem firstError_cons_of_wrong {Wrong : α → ε → Prop} {x : α} {xs : List α} {e d : ε}
    (hd : Wrong x d) : FirstError Wrong (x :: xs) e ↔ Wrong x e := by
  constructor
  · rintro ⟨pre, y, post, h, hpre, hy⟩
    cases pre with
    | nil => exact (List.cons.inj h).1 ▸ hy
    | cons z pre =>
      obtain ⟨rfl, -⟩ := List.cons.inj h
      exact absurd hd (hpre x List.mem_cons_self d)
  · exact fun he => ⟨[], x, xs, rfl, by simp, he⟩

theorem firstError_cons_of_fine {Wrong : α → ε → Prop} {x : α} {xs : List α} {e : ε}
    (hx : ∀ d, ¬Wrong x d) : FirstError Wrong (x :: xs) e ↔ FirstError Wrong xs e := by
  constructor
  · rintro ⟨pre, y, post, h, hpre, hy⟩
    cases pre with
    | nil => exact absurd ((List.cons.inj h).1 ▸ hy) (hx e)
    | cons z pre =>
      obtain ⟨-, rfl⟩ := List.cons.inj h
      exact ⟨pre, y, post, rfl, fun w hw => hpre w (List.mem_cons_of_mem z hw), hy⟩
  · rintro ⟨pre, y, post, rfl, hpre, hy⟩
    refine ⟨x :: pre, y, post, rfl, ?_, hy⟩
    intro w hw
    rcases List.mem_cons.1 hw with rfl | hw
    · exact hx
    · exact hpre w hw

theorem firstError_of_mem {Wrong : α → ε → Prop} {xs : List α} {x : α} {d : ε} (hx : x ∈ xs)
    (hd : Wrong x d) : ∃ e, FirstError Wrong xs e := by
  induction xs with
  | nil => simp at hx
  | cons y xs ih =>
    by_cases hy : ∃ e, Wrong y e
    · obtain ⟨e, he⟩ := hy
      exact ⟨e, (firstError_cons_of_wrong he).2 he⟩
    · rcases List.mem_cons.1 hx with rfl | hx
      · exact absurd ⟨d, hd⟩ hy
      · obtain ⟨e, he⟩ := ih hx
        exact ⟨e, (firstError_cons_of_fine fun e he => hy ⟨e, he⟩).2 he⟩

/-- A step and what follows it fail with the first error of both. -/
theorem bind_eq_error_iff {Wrong : α → ε → Prop} {x : α} {xs : List α} {step : Except ε σ}
    {rest : σ → Except ε γ} (hstep : ∀ e, step = .error e ↔ Wrong x e)
    (hrest : ∀ s, step = .ok s → ∀ e, rest s = .error e ↔ FirstError Wrong xs e) (e : ε) :
    (step >>= rest) = .error e ↔ FirstError Wrong (x :: xs) e := by
  cases hs : step with
  | error d =>
    rw [firstError_cons_of_wrong ((hstep d).1 hs), ← hstep e, hs]
    exact ⟨fun h => by cases h; rfl, fun h => by cases h; rfl⟩
  | ok s =>
    have hfine : ∀ d, ¬Wrong x d := fun d hd => by simp [(hstep d).2 hd] at hs
    rw [firstError_cons_of_fine hfine]
    exact hrest s hs e

/-- A fold whose steps fail or not whatever the state fails with the first error. -/
theorem foldlM_eq_error_iff {f : σ → α → Except ε σ} {Wrong : α → ε → Prop}
    (hf : ∀ s x e, f s x = .error e ↔ Wrong x e) (xs : List α) (s : σ) (e : ε) :
    xs.foldlM f s = .error e ↔ FirstError Wrong xs e := by
  induction xs generalizing s e with
  | nil => exact ⟨nofun, fun h => (not_firstError_nil Wrong e h).elim⟩
  | cons x xs ih =>
    rw [List.foldlM_cons]
    exact bind_eq_error_iff (hf s x) (fun s' _ e => ih s' e) e

theorem foldlM_eq_ok_or_firstError {f : σ → α → Except ε σ} {Wrong : α → ε → Prop}
    (hf : ∀ s x e, f s x = .error e ↔ Wrong x e) (xs : List α) (s : σ) :
    (∃ r, xs.foldlM f s = .ok r) ∨ ∃ e, FirstError Wrong xs e := by
  cases h : xs.foldlM f s with
  | ok r => exact Or.inl ⟨r, rfl⟩
  | error e => exact Or.inr ⟨e, (foldlM_eq_error_iff hf xs s e).1 h⟩

/-- Elements counted from left to right. -/
theorem foldl_count (p : α → Bool) (xs : List α) (n : Nat) :
    xs.foldl (fun n x => n + if p x then 1 else 0) n = n + xs.countP p := by
  induction xs generalizing n with
  | nil => rfl
  | cons x xs ih =>
    rw [List.foldl_cons, ih, List.countP_cons]
    omega

/-- One part of the state after a fold that succeeds. -/
theorem foldlM_observe {f : σ → α → Except ε σ} (part : σ → γ) (g : γ → α → γ)
    (hf : ∀ s x s', f s x = .ok s' → part s' = g (part s) x) (xs : List α) {s r : σ}
    (h : xs.foldlM f s = .ok r) : part r = xs.foldl g (part s) := by
  induction xs generalizing s with
  | nil =>
    cases h
    rfl
  | cons x xs ih =>
    rw [List.foldlM_cons] at h
    cases hx : f s x with
    | error d =>
      rw [hx] at h
      cases h
    | ok s' =>
      rw [hx] at h
      rw [List.foldl_cons, ← hf s x s' hx]
      exact ih h

/-- What every step preserves holds after a fold that succeeds. -/
theorem foldlM_preserves {f : σ → α → Except ε σ} {Good : σ → Prop}
    (hf : ∀ s x s', Good s → f s x = .ok s' → Good s') (xs : List α) {s r : σ} (hs : Good s)
    (h : xs.foldlM f s = .ok r) : Good r := by
  induction xs generalizing s with
  | nil =>
    cases h
    exact hs
  | cons x xs ih =>
    rw [List.foldlM_cons] at h
    cases hx : f s x with
    | error d =>
      rw [hx] at h
      cases h
    | ok s' =>
      rw [hx] at h
      exact ih (hf s x s' hs hx) h

end ReportTally
