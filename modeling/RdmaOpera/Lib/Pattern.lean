import Mathlib.Data.List.Infix
import RdmaOpera.Lib.Text

/-!
# Lines, and patterns matched at the start of a line

A `Pattern` is a regular expression without alternatives, matched the way a backtracking engine does
it: a repetition takes all it can get and gives back one character at a time until the rest fits.

| here | there |
| --- | --- |
| `lines`, `Line`    | the lines of a text, each with its newline; a line without it |
| `.one`, `.many`    | a character of a class, `least` or more of them |
| `.opn`, `.cls`     | the parentheses of a group; groups are not nested |
| `.eol`             | `$`: the end, or a newline at the end |
-/

namespace Lib

/-! ## Lines -/

def lines : List Char → List (List Char)
  | [] => []
  | c :: s =>
    if c = '\n' then ['\n'] :: lines s
    else match lines s with
      | [] => [[c]]
      | l :: ls => (c :: l) :: ls

/-- A line without a newline in it, and its newline. -/
theorem lines_append {a : List Char} (h : '\n' ∉ a) (s : List Char) :
    lines (a ++ '\n' :: s) = (a ++ ['\n']) :: lines s := by
  induction a with
  | nil => simp [lines]
  | cons c a ih =>
    have hc : c ≠ '\n' := fun heq => h (heq ▸ List.mem_cons_self)
    have ha : '\n' ∉ a := fun hm => h (List.mem_cons_of_mem c hm)
    simp only [List.cons_append, lines, if_neg hc, ih ha]

/-- A line of text, without its newline. -/
structure Line where
  chars : List Char
  oneLine : '\n' ∉ chars
deriving DecidableEq

namespace Line

def lit (t : String) (h : '\n' ∉ t.toList := by decide) : Line := ⟨t.toList, h⟩

def num (n : Nat) : Line := ⟨(toString n).toList, notMem_toString (by decide) n⟩

instance : Append Line where
  append a b := ⟨a.chars ++ b.chars, fun h => (List.mem_append.1 h).elim a.oneLine b.oneLine⟩

@[simp] theorem chars_append (a b : Line) : (a ++ b).chars = a.chars ++ b.chars := rfl
@[simp] theorem chars_lit (t : String) (h : '\n' ∉ t.toList) : (lit t h).chars = t.toList := rfl
@[simp] theorem chars_num (n : Nat) : (num n).chars = (toString n).toList := rfl

/-- The line as it stands in a file. -/
def ended (l : Line) : List Char := l.chars ++ ['\n']

end Line

def unlines (ls : List Line) : List Char := ls.flatMap Line.ended

/-- Lines put together and taken apart again. -/
theorem lines_unlines (ls : List Line) : lines (unlines ls) = ls.map Line.ended := by
  induction ls with
  | nil => rfl
  | cons l ls ih =>
    rw [unlines, List.flatMap_cons, Line.ended, List.append_assoc, List.singleton_append,
      lines_append l.oneLine, ← unlines, ih]
    rfl

/-! ## Patterns -/

inductive Item where
  | one (p : Char → Bool)
  | many (p : Char → Bool) (least : Nat)
  | opn
  | cls
  | eol

abbrev Pattern := List Item

namespace Pattern

def lit (t : String) : Pattern := t.toList.map fun c => .one (· == c)

/-- Every character but a newline. -/
def dot (c : Char) : Bool := c != '\n'
def digit (c : Char) : Bool := c.isDigit
def word (c : Char) : Bool := c.isAlphanum || c == '_'

/-- `opened` is the text from the last `.opn` on; the result is the groups and what is left of the
text. -/
def exec :
    Pattern → List Char → List (List Char) → List Char → Option (List (List Char) × List Char)
  | [], _, groups, s => some (groups, s)
  | .one p :: r, opened, groups, c :: s => if p c then exec r opened groups s else none
  | .one _ :: _, _, _, [] => none
  | .many p least :: r, opened, groups, s =>
    (List.range ((s.takeWhile p).length + 1)).reverse.findSome? fun k =>
      if least ≤ k then exec r opened groups (s.drop k) else none
  | .opn :: r, _, groups, s => exec r s groups s
  | .cls :: r, opened, groups, s =>
    exec r opened (groups ++ [opened.take (opened.length - s.length)]) s
  | .eol :: r, opened, groups, s => if s = [] ∨ s = ['\n'] then exec r opened groups s else none

/-- `re.match`. -/
def match? (r : Pattern) (s : List Char) : Option (List (List Char) × List Char) := exec r s [] s

/-- The groups of a match. -/
def groups? (r : Pattern) (s : List Char) : Option (List (List Char)) := (r.match? s).map Prod.fst

variable {r : Pattern} {opened : List Char} {groups : List (List Char)} {s : List Char}

theorem exec_one {p : Char → Bool} {c : Char} (hc : p c = true) :
    exec (.one p :: r) opened groups (c :: s) = exec r opened groups s := if_pos hc

theorem exec_one_ne {p : Char → Bool} {c : Char} (hc : p c = false) :
    exec (.one p :: r) opened groups (c :: s) = none := if_neg (ne_true_of_eq_false hc)

theorem exec_repeat {p : Char → Bool} {least : Nat} :
    exec (.many p least :: r) opened groups s =
      (List.range ((s.takeWhile p).length + 1)).reverse.findSome? fun k =>
        if least ≤ k then exec r opened groups (s.drop k) else none := rfl

theorem exec_opn : exec (.opn :: r) opened groups s = exec r s groups s := rfl

/-- The first character already is another one. -/
theorem match?_ne {p : Char → Bool} {c : Char} (hc : p c = false) :
    match? (.one p :: r) (c :: s) = none := exec_one_ne hc

theorem groups?_ne {p : Char → Bool} {c : Char} (hc : p c = false) :
    groups? (.one p :: r) (c :: s) = none := by
  rw [groups?, match?_ne hc, Option.map_none]

/-- A literal text takes itself. -/
theorem exec_lit (t : String) (s : List Char) :
    exec (lit t ++ r) opened groups (t.toList ++ s) = exec r opened groups s := by
  unfold lit
  induction t.toList with
  | nil => rfl
  | cons c t ih =>
    rw [List.map_cons, List.cons_append, List.cons_append,
      exec_one (p := (· == c)) (beq_self_eq_true c), ih]

/-- A group is closed. -/
theorem exec_cls (a s : List Char) :
    exec (.cls :: r) (a ++ s) groups s = exec r (a ++ s) (groups ++ [a]) s := by
  have htake : (a ++ s).take ((a ++ s).length - s.length) = a := by
    rw [List.length_append, Nat.add_sub_cancel, List.take_left]
  exact congrArg (fun g => exec r (a ++ s) (groups ++ [g]) s) htake

/-! ## Repetitions -/

/-- `s` does not go on with a character of `p`. -/
def Stops (p : Char → Bool) (s : List Char) : Prop := ∀ c s', s = c :: s' → p c = false

/-- `r` takes no text that does. -/
def Refuses (r : Pattern) (p : Char → Bool) : Prop :=
  ∀ opened groups c s, p c = true → exec r opened groups (c :: s) = none

theorem stops_cons {p : Char → Bool} {c : Char} (h : p c = false) : Stops p (c :: s) := by
  rintro _ _ ⟨⟩
  exact h

/-- A literal that begins with `d`. -/
theorem stops_lit {p : Char → Bool} {t : String} {d : Char} {t' : List Char} (ht : t.toList = d :: t')
    (hd : p d = false) : Stops p (t.toList ++ s) := by
  rw [ht]
  exact stops_cons hd

theorem refuses_one {p q : Char → Bool} (h : ∀ c, p c = true → q c = false) :
    Refuses (.one q :: r) p := by
  intro opened groups c s hc
  exact exec_one_ne (h c hc)

theorem Refuses.cls {p : Char → Bool} (h : Refuses r p) : Refuses (.cls :: r) p := by
  intro opened groups c s hc
  exact h _ _ _ _ hc

theorem refuses_lit {p : Char → Bool} {t : String} {d : Char} {t' : List Char} (ht : t.toList = d :: t')
    (hd : p d = false) : Refuses (lit t ++ r) p := by
  rw [lit, ht]
  refine refuses_one fun c hc => ?_
  simp only [beq_eq_false_iff_ne]
  rintro rfl
  rw [hd] at hc
  cases hc

section repetition
variable {p : Char → Bool} {least : Nat} {a b : List Char}

theorem takeWhile_eq (ha : ∀ c ∈ a, p c = true) (hb : Stops p b) : (a ++ b).takeWhile p = a := by
  rw [List.takeWhile_append_of_pos ha]
  cases b with
  | nil => rw [List.takeWhile_nil, List.append_nil]
  | cons c s => rw [List.takeWhile_cons_of_neg (by simp [hb c s rfl]), List.append_nil]

/-- A repetition takes all it can get, if the rest fits. -/
theorem exec_many_some (ha : ∀ c ∈ a, p c = true) (hb : Stops p b) (hle : least ≤ a.length)
    {x : List (List Char) × List Char} (h : exec r opened groups b = some x) :
    exec (.many p least :: r) opened groups (a ++ b) = some x := by
  rw [exec_repeat, takeWhile_eq ha hb, List.range_succ, List.reverse_append,
    List.reverse_singleton, List.singleton_append, List.findSome?_cons, List.drop_left, if_pos hle,
    h]

/-- It gives nothing back to what refuses its characters. -/
theorem exec_many (ha : ∀ c ∈ a, p c = true) (hb : Stops p b) (hr : Refuses r p) :
    exec (.many p least :: r) opened groups (a ++ b) =
      if least ≤ a.length then exec r opened groups b else none := by
  have hback : (List.range a.length).reverse.findSome? (fun k =>
      if least ≤ k then exec r opened groups ((a ++ b).drop k) else none) = none := by
    refine List.findSome?_eq_none_iff.2 fun k hk => ?_
    have hlt : k < a.length := List.mem_range.1 (List.mem_reverse.1 hk)
    rw [List.drop_append_of_le_length hlt.le, List.drop_eq_getElem_cons hlt, List.cons_append,
      hr _ _ _ _ (ha _ (List.getElem_mem hlt)), ite_self]
  rw [exec_repeat, takeWhile_eq ha hb, List.range_succ, List.reverse_append,
    List.reverse_singleton, List.singleton_append, List.findSome?_cons, List.drop_left]
  split
  · rename_i h
    exact h.symm
  · rename_i h
    rw [hback, h]

/-- Up to the last character of a kind. -/
theorem exec_many_one {q : Char → Bool} {c : Char} (ha : ∀ x ∈ a, p x = true) (hle : least ≤ a.length)
    (hc : q c = true) (hb : ∀ x ∈ b, q x = false) {x : List (List Char) × List Char}
    (h : exec r opened groups b = some x) :
    exec (.many p least :: .one q :: r) opened groups (a ++ c :: b) = some x := by
  let f : Nat → Option (List (List Char) × List Char) := fun k =>
    if least ≤ k then exec (.one q :: r) opened groups ((a ++ c :: b).drop k) else none
  have hlast : f a.length = some x := by
    show (if least ≤ a.length then _ else none) = some x
    rw [if_pos hle, List.drop_left, exec_one hc, h]
  have hbehind : ∀ k, a.length < k → f k = none := by
    intro k hk
    have hdrop : (a ++ c :: b).drop k = b.drop (k - a.length - 1) := by
      rw [List.drop_append, List.drop_eq_nil_of_le hk.le, List.nil_append,
        show k - a.length = (k - a.length - 1) + 1 by omega, List.drop_succ_cons,
        Nat.add_sub_cancel]
    show (if least ≤ k then _ else none) = none
    rw [hdrop]
    cases hs : b.drop (k - a.length - 1) with
    | nil => exact ite_self none
    | cons d s =>
      have hd : q d = false := hb d (List.mem_of_mem_drop (hs ▸ List.mem_cons_self))
      rw [exec_one_ne hd, ite_self]
  -- the longest repetition ends behind `a`
  have hfind : ∀ n, a.length ≤ n → (List.range (n + 1)).reverse.findSome? f = some x := by
    intro n hn
    induction n, hn using Nat.le_induction with
    | base =>
      rw [List.range_succ, List.reverse_append, List.reverse_singleton, List.singleton_append,
        List.findSome?_cons, hlast]
    | succ n hn ih =>
      rw [List.range_succ, List.reverse_append, List.reverse_singleton, List.singleton_append,
        List.findSome?_cons, hbehind (n + 1) (by omega)]
      exact ih
  rw [exec_repeat]
  refine hfind _ ?_
  rw [List.takeWhile_append_of_pos ha, List.length_append]
  exact Nat.le_add_right _ _

end repetition

/-- A match leaves the end of the text. -/
theorem suffix_of_exec :
    ∀ {r : Pattern} {opened : List Char} {groups groups' : List (List Char)} {s rest : List Char},
    exec r opened groups s = some (groups', rest) → rest <:+ s
  | [], _, _, _, s, rest, h => by
    cases h
    exact List.suffix_rfl
  | .one p :: r, _, _, _, [], rest, h => nomatch h
  | .one p :: r, opened, groups, _, c :: s, rest, h => by
    cases hc : p c with
    | true =>
      rw [exec_one hc] at h
      exact (suffix_of_exec h).trans (List.suffix_cons c s)
    | false =>
      rw [exec_one_ne hc] at h
      cases h
  | .many p least :: r, opened, groups, _, s, rest, h => by
    rw [exec_repeat] at h
    obtain ⟨k, -, hk⟩ := List.exists_of_findSome?_eq_some h
    split at hk
    · exact (suffix_of_exec hk).trans (List.drop_suffix k s)
    · cases hk
  | .opn :: r, _, _, _, s, rest, h => suffix_of_exec (r := r) h
  | .cls :: r, opened, groups, _, s, rest, h => suffix_of_exec (r := r) h
  | .eol :: r, opened, groups, _, s, rest, h => by
    rw [exec] at h
    split at h
    · exact suffix_of_exec h
    · cases h

end Pattern

end Lib
