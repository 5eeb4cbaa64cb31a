import Mathlib.Data.Nat.Basic

/-!
# Address ranges and the equal cells of one

A range is `[base, base + len)`. The cells of a range are the consecutive ranges of one length from
its base on.
-/

namespace Lib

structure Range where
  base : Nat
  len : Nat
deriving DecidableEq, Repr

namespace Range

variable {r s r' s' : Range}

def Contains (r : Range) (a : Nat) : Prop := r.base ≤ a ∧ a < r.base + r.len

def Within (r s : Range) : Prop := s.base ≤ r.base ∧ r.base + r.len ≤ s.base + s.len

def Apart (r s : Range) : Prop := r.base + r.len ≤ s.base ∨ s.base + s.len ≤ r.base

instance (r : Range) (a : Nat) : Decidable (r.Contains a) := inferInstanceAs (Decidable (_ ∧ _))
instance (r s : Range) : Decidable (r.Within s) := inferInstanceAs (Decidable (_ ∧ _))
instance (r s : Range) : Decidable (r.Apart s) := inferInstanceAs (Decidable (_ ∨ _))

theorem Apart.symm (h : r.Apart s) : s.Apart r := Or.symm h

theorem Apart.of_within (h : r.Apart s) (hr : r'.Within r) (hs : s'.Within s) : r'.Apart s' := by
  obtain ⟨h1, h2⟩ := hr
  obtain ⟨h3, h4⟩ := hs
  rcases h with h | h
  · left; omega
  · right; omega

theorem Apart.not_contains (h : r.Apart s) {a : Nat} (hr : r.Contains a) : ¬ s.Contains a := by
  rintro ⟨h3, h4⟩
  obtain ⟨h1, h2⟩ := hr
  rcases h with h | h <;> omega

/-- The `i`-th cell. -/
def cell (r : Range) (len i : Nat) : Range := ⟨r.base + i * len, len⟩

theorem cell_within {len k i : Nat} (hr : r.len = k * len) (hi : i < k) :
    (r.cell len i).Within r := by
  have hle : (i + 1) * len ≤ k * len := Nat.mul_le_mul_right len hi
  rw [Nat.succ_mul] at hle
  refine ⟨Nat.le_add_right _ _, ?_⟩
  show r.base + i * len + len ≤ r.base + r.len
  omega

theorem cell_apart {len i j : Nat} (hij : i ≠ j) : (r.cell len i).Apart (r.cell len j) := by
  have hbefore : ∀ {i j : Nat}, i < j → r.base + i * len + len ≤ r.base + j * len := by
    intro i j hlt
    have hle : (i + 1) * len ≤ j * len := Nat.mul_le_mul_right len hlt
    rw [Nat.succ_mul] at hle
    omega
  rcases Nat.lt_or_gt_of_ne hij with h | h
  · exact .inl (hbefore h)
  · exact .inr (hbefore h)

/-- The cells leave no gap. -/
theorem exists_cell {len k a : Nat} (hr : r.len = k * len) (ha : r.Contains a) :
    ∃ i < k, (r.cell len i).Contains a := by
  obtain ⟨hlo, hhi⟩ := ha
  have hlen : 0 < len := by
    rcases Nat.eq_zero_or_pos len with rfl | h
    · rw [Nat.mul_zero] at hr
      omega
    · exact h
  have hoff : a - r.base < k * len := by omega
  have hdiv := Nat.div_add_mod (a - r.base) len
  have hmod := Nat.mod_lt (a - r.base) hlen
  rw [Nat.mul_comm] at hdiv
  refine ⟨(a - r.base) / len, Nat.div_lt_of_lt_mul (by rwa [Nat.mul_comm]), ?_, ?_⟩
  · show r.base + (a - r.base) / len * len ≤ a
    omega
  · show a < r.base + (a - r.base) / len * len + len
    omega

/-- A range that holds `k` cells is that long. -/
theorem le_of_cells {len k : Nat} (hk : 0 < k) (h : ∀ i < k, (r.cell len i).Within r) :
    k * len ≤ r.len := by
  obtain ⟨-, hend⟩ := h (k - 1) (by omega)
  have hlast : (k - 1) * len + len = k * len := by
    rw [← Nat.succ_mul]
    congr 1
    omega
  have hend : r.base + (k - 1) * len + len ≤ r.base + r.len := hend
  omega

end Range

end Lib
