import Mathlib.Data.Fintype.Basic
import Mathlib.Logic.Hydra
import RdmaOpera.Lib.System

/-!
# Runs come to an end

Programs are finite trees, so finitely many of them cannot make calls for ever: each call replaces a
program by one of its children. If the environment too can only make so many steps between two
calls, every run is finite.
-/

namespace Lib

namespace Prog

variable {S : Sig} {α : Type}

/-- What may be left of `p` after its next call. -/
def Child (q p : Prog S α) : Prop := ∃ o k a, p = .call o k ∧ q = k a

theorem child_wf : WellFounded (Child : Prog S α → Prog S α → Prop) := by
  refine ⟨fun p => ?_⟩
  induction p with
  | ret a => exact ⟨_, fun q ⟨o, k, x, h, _⟩ => nomatch h⟩
  | call o k ih =>
    constructor
    rintro q ⟨o', k', a, h, rfl⟩
    cases h
    exact ih a
  | spin => exact ⟨_, fun q ⟨o, k, x, h, _⟩ => nomatch h⟩

end Prog

section
variable {S : Sig} {Pid α : Type} [DecidableEq Pid] [Fintype Pid] {E : Env S Pid} {allow : Label E →
  E.St → Prop} {c₀ c : Conf E α}

/-- One allowed step leads from `c` to `c'`. -/
def Conf.Step (allow : Label E → E.St → Prop) (c' c : Conf E α) : Prop :=
  ∃ l, c.next l = some c' ∧ allow l c'.st

/-- A call makes one of the programs smaller. -/
theorem cutExpand_update (prog : Pid → Prog S α) {p : Pid} {q : Prog S α}
    (h : Prog.Child q (prog p)) :
    Relation.CutExpand Prog.Child (Finset.univ.val.map (Function.update prog p q))
      (Finset.univ.val.map prog) := by
  have hsplit : ∀ f : Pid → Prog S α, Finset.univ.val.map f =
    (Finset.univ.erase p).val.map f + {f p} := by
    intro f
    rw [← Finset.insert_erase (Finset.mem_univ p),
      Finset.insert_val_of_notMem (Finset.notMem_erase p _), Multiset.map_cons,
      Finset.erase_insert (Finset.notMem_erase p _), ← Multiset.singleton_add, add_comm]
  have hothers : (Finset.univ.erase p).val.map (Function.update prog p q) =
    (Finset.univ.erase p).val.map prog := by
    refine Multiset.map_congr rfl fun r hr => Function.update_of_ne ?_ _ _
    exact Finset.ne_of_mem_erase hr
  rw [hsplit (Function.update prog p q), hsplit prog, hothers, Function.update_self]
  exact Relation.cutExpand_add_single _ h

/-- **Termination**: if every allowed environment step makes `μ` smaller, no run goes on for ever. -/
theorem Reachable.terminates_of_allowed {μ : E.St → Nat}
    (htick : ∀ c t st', Reachable allow c₀ c → allow (.tick t) st' →
      E.tick t c.st = some st' → μ st' < μ c.st)
    (hc : Reachable allow c₀ c) :
    Acc (Conf.Step allow) c := by
  have hwf : WellFounded (Prod.Lex (Relation.CutExpand (Prog.Child (S := S) (α := α)))
    (· < · : Nat → Nat → Prop)) :=
    WellFounded.prod_lex Prog.child_wf.cutExpand Nat.lt_wfRel.wf
  generalize hm : (Finset.univ.val.map c.prog, μ c.st) = m
  induction m using hwf.induction generalizing c with
  | _ m ih =>
    subst hm
    refine ⟨_, fun c' ⟨l, hn, hl⟩ => ih _ ?_ (hc.step l hl hn) rfl⟩
    cases l with
    | call p h =>
      obtain ⟨o, k, a, st', hp, -, rfl⟩ := Conf.next_call hn
      exact .left _ _ (cutExpand_update c.prog ⟨o, k, a, hp, rfl⟩)
    | tick t =>
      obtain ⟨st', ht, rfl⟩ := Conf.next_tick hn
      exact .right _ (htick c t st' hc hl ht)

/-- The same when every environment step does. -/
theorem Reachable.terminates {μ : E.St → Nat}
    (htick : ∀ c t st', Reachable allow c₀ c → E.tick t c.st = some st' → μ st' < μ c.st)
    (hc : Reachable allow c₀ c) :
    Acc (Conf.Step allow) c :=
  Reachable.terminates_of_allowed (fun c t st' hc _ ht => htick c t st' hc ht) hc

/-- **Runs that neither get stuck nor go on for ever** end with every program returned. -/
theorem Reachable.exists_returned
    (hprogress : ∀ c, Reachable allow c₀ c → (∃ p, ∀ a, c.prog p ≠ .ret a) → c.CanStep allow)
    (hacc : Acc (Conf.Step allow) c) (hc : Reachable allow c₀ c) :
    ∃ c', Reachable allow c₀ c' ∧ ∀ p, ∃ a, c'.prog p = .ret a := by
  induction hacc with
  | intro c _ ih =>
    by_cases hall : ∀ p, ∃ a, c.prog p = .ret a
    · exact ⟨c, hc, hall⟩
    · simp only [not_forall, not_exists] at hall
      obtain ⟨l, c', hn, hl⟩ := hprogress c hc hall
      exact ih c' ⟨l, hn, hl⟩ (hc.step l hl hn)

end

end Lib
