import Mathlib.Algebra.Group.Nat.Defs
import Mathlib.Data.List.TakeWhile

/-!
# Unsigned conversions of a scanner

`scanUnsigned` reads a number at the start of a text the way C does: white space and one sign are
passed over, the digits end at the first character that is none, and nothing is said about the rest.
A sign negates, what does not fit the conversion saturates (`strtoul`), and the variable keeps the
low bits.
-/

namespace Lib

/-- `isspace` in the C locale. -/
def isSpace (c : Char) : Bool := c = ' ' || ('\t' ≤ c && c ≤ '\r')

/-- The value of a string of digits. -/
def decimal (digits : List Char) : Nat := Nat.ofDigitChars 10 digits 0

/-- Whether there is a minus sign, and what follows the sign. -/
def splitSign : List Char → Bool × List Char
  | '-' :: s => (true, s)
  | '+' :: s => (false, s)
  | s => (false, s)

/-- The value of the conversion: 64 bits, saturated if the digits do not fit. -/
def strtoul (negative : Bool) (value : Nat) : Nat :=
  if 2 ^ 64 ≤ value then 2 ^ 64 - 1
  else if negative then (2 ^ 64 - value) % 2 ^ 64
  else value

/-- What the variable of `bits` bits holds afterwards, if a number was found. -/
def scanUnsigned (bits : Nat) (text : List Char) : Option Nat :=
  let (negative, s) := splitSign (text.dropWhile isSpace)
  let digits := s.takeWhile Char.isDigit
  if digits = [] then none
  else some (strtoul negative (decimal digits) % 2 ^ bits)

/-- A numeral, and nothing else. -/
def Numeral (text : List Char) : Prop := text ≠ [] ∧ ∀ c ∈ text, c.isDigit

/-- White space, a sign or none, and a digit. -/
def StartsNumber (text : List Char) : Prop :=
  ∃ spaces sign c rest, text = spaces ++ sign ++ c :: rest ∧ (∀ x ∈ spaces, isSpace x) ∧
    sign ∈ [[], ['+'], ['-']] ∧ c.isDigit

instance (text : List Char) : Decidable (Numeral text) :=
  @instDecidableAnd _ _ inferInstance (List.decidableBAll _ text)

section
variable {text : List Char}

theorem isSpace_of_isDigit {c : Char} (h : c.isDigit) : isSpace c = false := by
  have hlow : '0'.val ≤ c.val := by
    simp only [Char.isDigit, Bool.and_eq_true, decide_eq_true_eq] at h
    exact h.1
  have hspace : c ≠ ' ' := by
    rintro rfl
    exact absurd hlow (by decide)
  have hreturn : ¬ c ≤ '\r' := fun hle => absurd (UInt32.le_trans hlow hle) (by decide)
  simp [isSpace, hspace, hreturn]

theorem splitSign_of_isDigit {c : Char} (h : c.isDigit) (rest : List Char) :
    splitSign (c :: rest) = (false, c :: rest) := by
  have hminus : c ≠ '-' := by
    rintro rfl
    exact absurd h (by decide)
  have hplus : c ≠ '+' := by
    rintro rfl
    exact absurd h (by decide)
  unfold splitSign
  split
  · rename_i heq
    exact absurd (List.cons.inj heq).1 hminus
  · rename_i heq
    exact absurd (List.cons.inj heq).1 hplus
  · rfl

/-- The sign taken off, and put back. -/
theorem splitSign_eq (s : List Char) :
    ∃ sign, sign ∈ [[], ['+'], ['-']] ∧ s = sign ++ (splitSign s).2 := by
  unfold splitSign
  split
  · exact ⟨['-'], by simp, rfl⟩
  · exact ⟨['+'], by simp, rfl⟩
  · exact ⟨[], by simp, rfl⟩

/-- **A number is found** exactly where one starts. -/
theorem scanUnsigned_isSome {bits : Nat} : (scanUnsigned bits text).isSome ↔ StartsNumber text := by
  have hsome : (scanUnsigned bits text).isSome ↔
    ((splitSign (text.dropWhile isSpace)).2.takeWhile Char.isDigit) ≠ [] := by
    simp only [scanUnsigned]
    split
    · rename_i h
      simp [h]
    · rename_i h
      simp [h]
  rw [hsome]
  constructor
  · intro hne
    obtain ⟨sign, hsign, hrest⟩ := splitSign_eq (text.dropWhile isSpace)
    generalize (splitSign (text.dropWhile isSpace)).2 = s at hne hrest
    cases s with
    | nil => exact absurd rfl hne
    | cons c rest =>
      refine ⟨text.takeWhile isSpace, sign, c, rest, ?_,
        fun x hx => List.mem_takeWhile_imp hx, hsign, ?_⟩
      · rw [List.append_assoc, ← hrest, List.takeWhile_append_dropWhile]
      · by_contra hdigit
        exact hne (List.takeWhile_cons_of_neg hdigit)
  · rintro ⟨spaces, sign, c, rest, rfl, hspaces, hsign, hdigit⟩
    have hdrop : (spaces ++ sign ++ c :: rest).dropWhile isSpace = sign ++ c :: rest := by
      rw [List.append_assoc, List.dropWhile_append_of_pos (by simpa using hspaces)]
      simp only [List.mem_cons, List.not_mem_nil, or_false] at hsign
      rcases hsign with rfl | rfl | rfl
      · exact List.dropWhile_cons_of_neg (by rw [isSpace_of_isDigit hdigit]; exact Bool.false_ne_true)
      · rfl
      · rfl
    have hsplit : (splitSign (sign ++ c :: rest)).2 = c :: rest := by
      simp only [List.mem_cons, List.not_mem_nil, or_false] at hsign
      rcases hsign with rfl | rfl | rfl
      · exact congrArg Prod.snd (splitSign_of_isDigit hdigit rest)
      · rfl
      · rfl
    rw [hdrop, hsplit, List.takeWhile_cons_of_pos hdigit]
    exact List.cons_ne_nil _ _

theorem scanUnsigned_eq_none {bits : Nat} :
    scanUnsigned bits text = none ↔ ¬ StartsNumber text := by
  rw [← @scanUnsigned_isSome text bits, Option.not_isSome_iff_eq_none]

/-- A numeral that fits is what the variable holds. -/
theorem scanUnsigned_numeral {bits : Nat} (hbits : bits ≤ 64) (h : Numeral text)
    (hfit : decimal text < 2 ^ bits) :
    scanUnsigned bits text = some (decimal text) := by
  obtain ⟨hne, hdigits⟩ := h
  have hsplit : splitSign (text.dropWhile isSpace) = (false, text) := by
    cases text with
    | nil => exact absurd rfl hne
    | cons c rest =>
      have hc : c.isDigit := hdigits c (by simp)
      rw [List.dropWhile_cons_of_neg (by rw [isSpace_of_isDigit hc]; exact Bool.false_ne_true),
        splitSign_of_isDigit hc]
  have htake : text.takeWhile Char.isDigit = text := List.takeWhile_eq_self_iff.2 hdigits
  have hlt : decimal text < 2 ^ 64 := hfit.trans_le (Nat.pow_le_pow_right (by decide) hbits)
  simp only [scanUnsigned, hsplit, htake]
  rw [if_neg hne, strtoul, if_neg (Nat.not_le.2 hlt), if_neg Bool.false_ne_true,
    Nat.mod_eq_of_lt hfit]

end

end Lib
