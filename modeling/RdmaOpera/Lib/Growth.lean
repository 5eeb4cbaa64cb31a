import Mathlib.Data.List.Basic

/-!
# Lists that grow at their end

A history only ever gets longer: what stands at a position stays there, and what is new stands behind
the last one.
-/

namespace Lib

variable {α : Type} {xs ys : List α} {a b : α} {k : Nat}

theorem getElem?_mono (h : xs <+: ys) (hk : xs[k]? = some a) : ys[k]? = some a := by
  obtain ⟨rest, rfl⟩ := h
  rw [List.getElem?_append_left (List.getElem?_eq_some_iff.1 hk).1]
  exact hk

theorem prefix_concat (h : xs <+: ys) (ha : ys[xs.length]? = some a) : xs ++ [a] <+: ys := by
  obtain ⟨zs, rfl⟩ := h
  cases zs with
  | nil => simp at ha
  | cons z zs =>
    rw [List.getElem?_append_right (Nat.le_refl _), Nat.sub_self] at ha
    cases ha
    exact ⟨zs, by simp⟩

/-- An element is an old one, or the new one. -/
theorem getElem?_concat :
    (xs ++ [a])[k]? = some b ↔ xs[k]? = some b ∨ k = xs.length ∧ b = a := by
  constructor
  · intro h
    rw [List.getElem?_append] at h
    split at h
    · exact .inl h
    · have hlt := (List.getElem?_eq_some_iff.1 h).1
      rw [List.length_singleton] at hlt
      obtain rfl : k = xs.length := by omega
      rw [Nat.sub_self] at h
      exact .inr ⟨rfl, (Option.some.inj h).symm⟩
  · rintro (h | ⟨rfl, rfl⟩)
    · exact getElem?_mono (List.prefix_append _ _) h
    · exact List.getElem?_concat_length

theorem forall_getElem?_concat {P : Nat → α → Prop} :
    (∀ k b, (xs ++ [a])[k]? = some b → P k b) ↔
      (∀ k b, xs[k]? = some b → P k b) ∧ P xs.length a := by
  constructor
  · exact fun h => ⟨fun k b hk => h k b (getElem?_concat.2 (.inl hk)),
      h _ _ (getElem?_concat.2 (.inr ⟨rfl, rfl⟩))⟩
  · rintro ⟨hold, hnew⟩ k b hk
    rcases getElem?_concat.1 hk with hk | ⟨rfl, rfl⟩
    · exact hold k b hk
    · exact hnew

end Lib
