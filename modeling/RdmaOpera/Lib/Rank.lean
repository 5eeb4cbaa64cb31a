import Mathlib.Algebra.Order.BigOperators.Group.List
import Mathlib.Algebra.Order.Field.Basic
import Mathlib.Data.List.Sort

/-!
# Ranks in a sorted list

How many elements are on either side of the `k`-th one, and the mean between the smallest and the
largest.
-/

namespace Lib

section rank
variable {α : Type} [LinearOrder α] {l : List α} (h : l.Pairwise (· ≤ ·))
include h

theorem getElem_le_getElem {i j : Nat} (hij : i ≤ j) (hj : j < l.length) : l[i] ≤ l[j] := by
  rcases Nat.lt_or_eq_of_le hij with hlt | rfl
  · exact List.pairwise_iff_getElem.1 h i j (by omega) hj hlt
  · exact le_refl _

/-- The first `k + 1` are no greater. -/
theorem lt_countP_le {k : Nat} (hk : k < l.length) : k < l.countP fun x => x ≤ l[k] := by
  have hall : (l.take (k + 1)).countP (fun x => x ≤ l[k]) = k + 1 := by
    rw [List.countP_eq_length.2, List.length_take, Nat.min_eq_left hk]
    intro x hx
    obtain ⟨i, hi, rfl⟩ := List.mem_iff_getElem.1 hx
    rw [List.length_take] at hi
    rw [List.getElem_take]
    exact decide_eq_true (getElem_le_getElem h (by omega) hk)
  have hsub := (List.take_sublist (k + 1) l).countP_le (p := fun x => decide (x ≤ l[k]))
  omega

/-- All but the first `k` are no smaller. -/
theorem le_countP_ge {k : Nat} (hk : k < l.length) : l.length - k ≤ l.countP fun x => l[k] ≤ x := by
  have hall : (l.drop k).countP (fun x => l[k] ≤ x) = l.length - k := by
    rw [List.countP_eq_length.2, List.length_drop]
    intro x hx
    obtain ⟨i, hi, rfl⟩ := List.mem_iff_getElem.1 hx
    rw [List.length_drop] at hi
    rw [List.getElem_drop]
    exact decide_eq_true (getElem_le_getElem h (by omega) (by omega))
  have hsub := (List.drop_sublist k l).countP_le (p := fun x => decide (l[k] ≤ x))
  omega

end rank

section mean
variable {F : Type} [Field F] [LinearOrder F] [IsStrictOrderedRing F] {l : List F} {x : F}

theorem le_mean (hne : l ≠ []) (h : ∀ y ∈ l, x ≤ y) : x ≤ l.sum / l.length := by
  have hpos : (0 : F) < l.length := by exact_mod_cast List.length_pos_iff.2 hne
  rw [le_div_iff₀ hpos, mul_comm, ← nsmul_eq_mul]
  exact l.card_nsmul_le_sum x h

theorem mean_le (hne : l ≠ []) (h : ∀ y ∈ l, y ≤ x) : l.sum / l.length ≤ x := by
  have hpos : (0 : F) < l.length := by exact_mod_cast List.length_pos_iff.2 hne
  rw [div_le_iff₀ hpos, mul_comm, ← nsmul_eq_mul]
  exact l.sum_le_card_nsmul x h

end mean

end Lib
