import Mathlib.Data.Finset.Card
import Mathlib.Data.List.Induction
import Mathlib.Data.List.Nodup

/-!
# Lists without repetitions

`List.eraseDups` leaves none (`nodup_eraseDups`) and keeps the first place of every element
(`pairwise_eraseDups`). Where no key is repeated, a look-up finds every pair
(`lookup_eq_some_iff_mem`), so it does not depend on their order.
-/

namespace ReportTally

variable {α β : Type} [BEq α] [LawfulBEq α]

theorem nodup_eraseDups (xs : List α) : xs.eraseDups.Nodup := by
  match xs with
  | [] => simp
  | x :: xs =>
    rw [List.eraseDups_cons, List.nodup_cons]
    refine ⟨fun hx => ?_, nodup_eraseDups _⟩
    have := List.mem_eraseDups.1 hx
    simp at this
termination_by xs.length
decreasing_by exact Nat.lt_succ_of_le (List.length_filter_le _ _)

variable {xs : List α} {x : α}

theorem eraseDups_concat_of_mem (h : x ∈ xs) : (xs ++ [x]).eraseDups = xs.eraseDups := by
  rw [List.eraseDups_append]
  simp [List.removeAll, h]

theorem eraseDups_concat_of_notMem (h : x ∉ xs) :
    (xs ++ [x]).eraseDups = xs.eraseDups ++ [x] := by
  rw [List.eraseDups_append]
  simp [List.removeAll, h, List.eraseDups_cons]

theorem length_eraseDups [DecidableEq α] (xs : List α) :
    xs.eraseDups.length = xs.toFinset.card := by
  rw [← List.toFinset_card_of_nodup (nodup_eraseDups xs)]
  congr 1
  ext x
  simp [List.mem_eraseDups]

/-- The elements stand in the order of their first places. -/
theorem pairwise_eraseDups (xs : List α) :
    xs.eraseDups.Pairwise fun x y => xs.idxOf x < xs.idxOf y := by
  induction xs using List.reverseRecOn with
  | nil => exact List.Pairwise.nil
  | append_singleton xs z ih =>
    have hold : ∀ x ∈ xs.eraseDups, (xs ++ [z]).idxOf x = xs.idxOf x := fun x hx =>
      List.idxOf_append_of_mem (List.mem_eraseDups.1 hx)
    have hkept : xs.eraseDups.Pairwise fun x y => (xs ++ [z]).idxOf x < (xs ++ [z]).idxOf y :=
      ih.imp_of_mem fun {x y} hx hy hlt => by rwa [hold x hx, hold y hy]
    by_cases hz : z ∈ xs
    · rwa [eraseDups_concat_of_mem hz]
    · rw [eraseDups_concat_of_notMem hz, List.pairwise_append]
      refine ⟨hkept, List.pairwise_singleton _ _, fun x hx y hy => ?_⟩
      rw [List.mem_singleton.1 hy, hold x hx, List.idxOf_append_of_notMem hz]
      have hlt := List.idxOf_lt_length_of_mem (List.mem_eraseDups.1 hx)
      omega

theorem lookup_eq_some_iff_mem {xs : List (α × β)} (h : (xs.map Prod.fst).Nodup) {a : α} {b : β} :
    xs.lookup a = some b ↔ (a, b) ∈ xs := by
  induction xs with
  | nil => simp
  | cons x xs ih =>
    obtain ⟨c, d⟩ := x
    rw [List.map_cons, List.nodup_cons] at h
    rw [List.lookup_cons, List.mem_cons, Prod.mk.injEq]
    by_cases hac : a = c
    · subst hac
      have hno : (a, b) ∉ xs := fun hb => h.1 (List.mem_map.2 ⟨_, hb, rfl⟩)
      simp [hno, eq_comm]
    · rw [beq_eq_false_iff_ne.2 hac]
      simp [hac, ih h.2]

end ReportTally
