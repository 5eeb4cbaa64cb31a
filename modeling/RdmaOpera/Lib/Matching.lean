import Mathlib.Data.List.Basic

/-!
# Two queues matched in order

Messages and receives are matched one pair at a time, the first message not yet matched with the
first receive not yet matched; a pair holds their numbers.
-/

namespace Lib

/-- The first of `n` numbers that is not used. -/
def firstFree (n : Nat) (used : List Nat) : Option Nat := (List.range n).find? fun i => i ∉ used

/-- One more pair, with `sent` messages and `posted` receives there. -/
def matchNext (sent posted : Nat) (pairs : List (Nat × Nat)) : Option (List (Nat × Nat)) := do
  let i ← firstFree sent (pairs.map Prod.fst)
  let j ← firstFree posted (pairs.map Prod.snd)
  pure (pairs ++ [(i, j)])

/-- The first `n`, each with its own number. -/
def inStep (n : Nat) : List (Nat × Nat) := (List.range n).map fun k => (k, k)

variable {sent posted n k : Nat} {pairs : List (Nat × Nat)}

@[simp] theorem length_inStep (n : Nat) : (inStep n).length = n := by simp [inStep]

theorem inStep_succ (n : Nat) : inStep (n + 1) = inStep n ++ [(n, n)] := by
  simp [inStep, List.range_succ]

@[simp] theorem getElem?_inStep (n k : Nat) :
    (inStep n)[k]? = if k < n then some (k, k) else none := by
  by_cases h : k < n
  · simp [inStep, h]
  · simp [inStep, h]

theorem firstFree_range (n k : Nat) :
    firstFree n (List.range k) = if k < n then some k else none := by
  by_cases h : k < n
  · rw [if_pos h, firstFree, List.find?_range_eq_some]
    simpa using h
  · rw [if_neg h, firstFree, List.find?_range_eq_none]
    intro i hi
    simp
    omega

/-- **Matching keeps step**: after `k` pairs the next one is `(k, k)`. -/
theorem matchNext_inStep (sent posted k : Nat) :
    matchNext sent posted (inStep k) =
      if k < sent ∧ k < posted then some (inStep (k + 1)) else none := by
  have hfst : (inStep k).map Prod.fst = List.range k := by
    rw [inStep, List.map_map]
    exact List.map_id _
  have hsnd : (inStep k).map Prod.snd = List.range k := by
    rw [inStep, List.map_map]
    exact List.map_id _
  rw [matchNext, hfst, hsnd, firstFree_range, firstFree_range]
  by_cases hs : k < sent
  · by_cases hp : k < posted
    · simp [hs, hp, inStep_succ]
    · simp [hs, hp]
  · simp [hs]

end Lib
