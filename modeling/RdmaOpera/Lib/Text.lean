import Mathlib.Algebra.Group.Nat.Defs
import Mathlib.Data.List.Basic

/-!
# Decimal numerals in text
-/

namespace Lib

theorem toString_inj {m n : Nat} : toString m = toString n ↔ m = n := by
  constructor
  · intro h
    have hdigits : Nat.toDigits 10 m = Nat.toDigits 10 n := by
      rw [← Nat.toList_repr, ← Nat.toList_repr]
      exact congrArg String.toList h
    have hvalue := congrArg (Nat.ofDigitChars 10 · 0) hdigits
    simpa [Nat.ofDigitChars_toDigits] using hvalue
  · rintro rfl
    rfl

theorem isDigit_of_mem_toString {c : Char} {n : Nat} (h : c ∈ (toString n).toList) : c.isDigit := by
  have h : c ∈ (Nat.repr n).toList := h
  rw [Nat.toList_repr] at h
  exact Nat.isDigit_of_mem_toDigits (by decide) (by decide) h

/-- What is no digit is in no numeral. -/
theorem notMem_toString {c : Char} (hc : c.isDigit = false) (n : Nat) :
    c ∉ (toString n).toList := by
  intro h
  have hdigit := isDigit_of_mem_toString h
  rw [hc] at hdigit
  cases hdigit

theorem notMem_toDigits {c : Char} (hc : c.isDigit = false) (n : Nat) : c ∉ Nat.toDigits 10 n := by
  rw [← Nat.toList_repr]
  exact notMem_toString hc n

/-- Two numerals with something that is no digit between them. -/
theorem numerals_inj {c : Char} (hc : c.isDigit = false) {m n m' n' : Nat} :
    (toString m).toList ++ c :: (toString n).toList = (toString m').toList ++
      c :: (toString n').toList ↔ m = m' ∧ n = n' := by
  rw [List.append_cons_inj_of_notMem (notMem_toString hc m) (notMem_toString hc n),
    String.toList_inj, String.toList_inj,
    toString_inj, toString_inj]
  simp

/-- What digits can amount to, behind a number that is there already. -/
theorem ofDigitChars_lt : ∀ l : List Char, (∀ c ∈ l, c.isDigit) → ∀ init,
    Nat.ofDigitChars 10 l init < (init + 1) * 10 ^ l.length
  | [], _, init => by simp
  | c :: l, hl, init => by
    have hc : c.toNat ≤ '9'.toNat := (Char.isDigit_iff_toNat.1 (hl c (by simp))).2
    have ih := ofDigitChars_lt l (fun d hd => hl d (List.mem_cons_of_mem _ hd))
      (10 * init + (c.toNat - '0'.toNat))
    have hdigit : c.toNat - '0'.toNat ≤ 9 := Nat.sub_le_sub_right hc _
    rw [Nat.ofDigitChars_cons]
    calc Nat.ofDigitChars 10 l (10 * init + (c.toNat - '0'.toNat))
        < (10 * init + (c.toNat - '0'.toNat) + 1) * 10 ^ l.length := ih
      _ ≤ ((init + 1) * 10) * 10 ^ l.length := Nat.mul_le_mul_right _ (by omega)
      _ = (init + 1) * 10 ^ (c :: l).length := by
        rw [List.length_cons, Nat.pow_succ, Nat.mul_assoc, Nat.mul_comm 10]

end Lib
