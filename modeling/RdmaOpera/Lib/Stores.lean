import Mathlib.Data.List.Basic
import RdmaOpera.Lib.Range

/-!
# Stores to a flat memory

A memory gives every address a value. What an address holds after some stores depends on those that
contain it: on none of them (`stored_of_not_contains`), or on one that no other of them overwrites
there (`stored_of_mem`).
-/

namespace Lib

variable {α : Type}

structure Store (α : Type) where
  addr : Nat
  data : List α

namespace Store

def range (s : Store α) : Range := ⟨s.addr, s.data.length⟩

/-- The addresses written, in order. -/
def addrs (s : Store α) : List Nat := List.range' s.addr s.data.length

def apply (mem : Nat → α) (s : Store α) : Nat → α :=
  fun a => if s.range.Contains a then s.data.getD (a - s.addr) (mem a) else mem a

end Store

def stored (ss : List (Store α)) (mem : Nat → α) : Nat → α := ss.foldl Store.apply mem

/-- What a range holds. -/
def contents (mem : Nat → α) (r : Range) : List α := (List.range' r.base r.len).map mem

@[simp] theorem length_contents (mem : Nat → α) (r : Range) : (contents mem r).length = r.len := by
  simp [contents]

theorem contents_append (mem : Nat → α) (base k l : Nat) :
    contents mem ⟨base, k + l⟩ = contents mem ⟨base, k⟩ ++ contents mem ⟨base + k, l⟩ := by
  simp [contents, ← List.range'_append_1]

/-- An address that is not written to. -/
theorem stored_of_not_contains {ss : List (Store α)} {a : Nat} (h : ∀ s ∈ ss, ¬ s.range.Contains a)
    (mem : Nat → α) :
    stored ss mem a = mem a := by
  induction ss generalizing mem with
  | nil => rfl
  | cons s ss ih =>
    have hs : Store.apply mem s a = mem a := if_neg (h s (by simp))
    rw [← hs]
    exact ih (fun s' hs' => h s' (by simp [hs'])) _

/-- An address that one store writes to. -/
theorem stored_of_mem {ss : List (Store α)} {s : Store α} (hs : s ∈ ss) {a : Nat}
    (ha : s.range.Contains a) (h : ∀ s' ∈ ss, s' = s ∨ ¬ s'.range.Contains a) (mem : Nat → α) :
    s.data[a - s.addr]? = some (stored ss mem a) := by
  induction ss generalizing mem with
  | nil => cases hs
  | cons s' ss ih =>
    have hrest : ∀ t ∈ ss, t = s ∨ ¬ t.range.Contains a := fun t ht => h t (by simp [ht])
    by_cases hmem : s ∈ ss
    · exact ih hmem hrest _
    · obtain rfl : s = s' := by simpa [hmem] using hs
      have hlast : stored ss (Store.apply mem s) a = Store.apply mem s a :=
        stored_of_not_contains (fun t ht => (hrest t ht).resolve_left fun e => hmem (e ▸ ht)) _
      have hlt : a - s.addr < s.data.length := by
        have hle : s.addr ≤ a := ha.1
        have hlt : a < s.addr + s.data.length := ha.2
        omega
      have happly : Store.apply mem s a = s.data.getD (a - s.addr) (mem a) := if_pos ha
      show _ = some (stored ss (Store.apply mem s) a)
      rw [hlast, happly, List.getD_eq_getElem?_getD, List.getElem?_eq_getElem hlt]
      rfl

/-- A range holds what was stored in it if everything else was stored elsewhere. -/
theorem contents_stored_of_mem {ss : List (Store α)} {s : Store α} (hs : s ∈ ss)
    (h : ∀ s' ∈ ss, s' = s ∨ s'.range.Apart s.range) (mem : Nat → α) :
    contents (stored ss mem) s.range = s.data := by
  apply List.ext_getElem?
  intro i
  by_cases hi : i < s.data.length
  · have ha : s.range.Contains (s.addr + i) := ⟨Nat.le_add_right _ _, Nat.add_lt_add_left hi _⟩
    have hother : ∀ s' ∈ ss, s' = s ∨ ¬ s'.range.Contains (s.addr + i) :=
      fun s' hs' => (h s' hs').imp_right fun hapart hcontains => hapart.not_contains hcontains ha
    have hget := stored_of_mem hs ha hother mem
    rw [Nat.add_sub_cancel_left] at hget
    rw [hget]
    simp [contents, Store.range, hi]
  · rw [List.getElem?_eq_none (Nat.le_of_not_lt hi),
      List.getElem?_eq_none (by simpa [Store.range] using hi)]

/-- Cells written one after another. -/
theorem flatMap_addrs_cells (ss : Nat → Store α) {base len : Nat}
    (haddr : ∀ i, (ss i).addr = base + i * len) (hlen : ∀ i, (ss i).data.length = len) (k : Nat) :
    ((List.range k).map ss).flatMap Store.addrs = List.range' base (k * len) := by
  induction k with
  | zero => simp
  | succ k ih =>
    rw [List.range_succ, List.map_append, List.flatMap_append, ih, Nat.succ_mul,
      ← List.range'_append_1]
    simp [Store.addrs, haddr, hlen]

end Lib
