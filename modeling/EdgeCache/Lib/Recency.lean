import Mathlib

/-!
# Recency lists and the longest prefix that fits

A cache that evicts by recency keeps its pairs in a list, most recently touched
first, and after an insertion keeps the longest prefix whose total size stays
within a budget.  `fitting` computes that prefix from the front;
`fitting_longest` says that it is the longest one, and `fitting_dropLast` that a
loop which drops the last element while the list is too large arrives at the same
list.
-/

namespace EdgeCache.Recency

universe u v

variable {α : Type u} {β : Type v} {size : α → ℕ} {budget : ℕ} {l l' : List α}

/-- The total size of a list. -/
def total (size : α → ℕ) (l : List α) : ℕ := (l.map size).sum

/-- **The longest prefix within the budget.** -/
def fitting (size : α → ℕ) : ℕ → List α → List α
  | _, [] => []
  | budget, a :: l => if size a ≤ budget then a :: fitting size (budget - size a) l else []

@[simp] theorem total_nil : total size [] = 0 := rfl

@[simp] theorem total_cons (a : α) (l : List α) : total size (a :: l) = size a + total size l := rfl

@[simp] theorem total_append (l l' : List α) :
    total size (l ++ l') = total size l + total size l' := by
  simp [total]

/-- A sublist is no larger. -/
theorem total_le_of_sublist (sub : List.Sublist l l') : total size l ≤ total size l' :=
  (sub.map size).sum_le_sum fun _ _ => Nat.zero_le _

theorem total_perm (perm : l.Perm l') : total size l = total size l' := (perm.map size).sum_eq

theorem prefix_fitting (size : α → ℕ) (budget : ℕ) (l : List α) : fitting size budget l <+: l := by
  induction l generalizing budget with
  | nil => exact List.prefix_refl _
  | cons a l ih =>
      unfold fitting
      split
      · exact (List.prefix_cons_inj a).mpr (ih _)
      · exact List.nil_prefix

theorem total_fitting_le (size : α → ℕ) (budget : ℕ) (l : List α) :
    total size (fitting size budget l) ≤ budget := by
  induction l generalizing budget with
  | nil => exact Nat.zero_le _
  | cons a l ih =>
      unfold fitting
      split
      · have rest := ih (budget - size a)
        rw [total_cons]
        omega
      · exact Nat.zero_le _

/-- **No longer prefix fits.** -/
theorem fitting_longest (front : l' <+: l) (fits : total size l' ≤ budget) :
    l' <+: fitting size budget l := by
  induction l generalizing budget l' with
  | nil => rwa [fitting]
  | cons a l ih =>
      cases l' with
      | nil => exact List.nil_prefix
      | cons b l' =>
          obtain ⟨rfl, rest⟩ := List.cons_prefix_cons.mp front
          rw [total_cons] at fits
          rw [fitting, if_pos (by omega)]
          exact (List.prefix_cons_inj b).mpr (ih rest (by omega))

theorem fitting_of_le (fits : total size l ≤ budget) : fitting size budget l = l :=
  (prefix_fitting size budget l).eq_of_length_le (fitting_longest (List.prefix_refl l) fits).length_le

/-- **Dropping the last element of a list that is too large changes nothing.** -/
theorem fitting_dropLast (large : budget < total size l) :
    fitting size budget l.dropLast = fitting size budget l := by
  have shorter : fitting size budget l <+: l.dropLast := by
    rcases List.eq_nil_or_concat l with rfl | ⟨init, last, rfl⟩
    · exact List.nil_prefix
    · rw [List.concat_eq_append] at large ⊢
      rw [List.dropLast_concat]
      refine (List.prefix_concat_iff.mp (prefix_fitting size budget _)).resolve_left fun whole => ?_
      have fits := total_fitting_le size budget (init ++ [last])
      rw [whole] at fits
      omega
  refine List.IsPrefix.eq_of_length_le ?_ (fitting_longest shorter (total_fitting_le ..)).length_le
  exact fitting_longest ((prefix_fitting ..).trans (List.dropLast_prefix l)) (total_fitting_le ..)

/-- Sizes are all that matters. -/
theorem map_fitting {size' : β → ℕ} (f : α → β) (same : ∀ a ∈ l, size' (f a) = size a) :
    (fitting size budget l).map f = fitting size' budget (l.map f) := by
  induction l generalizing budget with
  | nil => rfl
  | cons a l ih =>
      rw [List.map_cons, fitting, fitting, same a List.mem_cons_self,
        ← ih fun b mem => same b (List.mem_cons_of_mem _ mem)]
      split <;> rfl

/-- **What does not fit**: with everything in front of it, it exceeds the budget. -/
theorem lt_total_of_notMem_fitting {front back : List α} {a : α} (split : l = front ++ a :: back)
    (dropped : a ∉ fitting size budget l) : budget < total size (front ++ [a]) := by
  by_contra fits
  have front' : front ++ [a] <+: l := ⟨back, by rw [split, List.append_assoc]; rfl⟩
  have kept := fitting_longest front' (Nat.not_lt.mp fits)
  exact dropped (kept.subset (by simp))

end EdgeCache.Recency
