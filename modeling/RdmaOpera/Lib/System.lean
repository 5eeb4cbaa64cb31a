import RdmaOpera.Lib.Prog

/-!
# Several programs sharing one environment

Programs `prog p`, one for each process `p`, run interleaved. A process step is one library call,
answered by the environment (`act`); the environment also moves on its own (`tick`: a network
delivering messages). Nondeterminism is in the labels: a `Hint` fixes what the environment may
choose when it answers a call, a `Tick` names the environment step.

`Reachable.invariant` is the proof rule: each program is checked on its own against its monitor
(`Safe`), and a joint invariant of environment and ghost states supplies, at each call that `ok`
allows, an answer the monitor admits.
-/

namespace Lib

open Prog

structure Env (S : Sig) (Pid : Type) where
  St : Type
  Hint : Type
  Tick : Type
  act : Hint → Pid → (o : S.Op) → St → Option (S.Ans o × St)
  tick : Tick → St → Option St

section
variable {S : Sig} {Pid α σ : Type} [DecidableEq Pid] {E : Env S Pid}

inductive Label (E : Env S Pid) where
  | call (p : Pid) (h : E.Hint)
  | tick (t : E.Tick)

structure Conf (E : Env S Pid) (α : Type) where
  st : E.St
  prog : Pid → Prog S α

/-- The configuration after the step with this label, if the step is possible. -/
def Conf.next (c : Conf E α) : Label E → Option (Conf E α)
  | .call p h => match c.prog p with
    | .call o k => (E.act h p o c.st).map fun r => ⟨r.2, Function.update c.prog p (k r.1)⟩
    | _ => none
  | .tick t => (E.tick t c.st).map fun st => ⟨st, c.prog⟩

/-- Configurations reached from `c₀` by steps whose labels, and the states they lead to, are
allowed. -/
inductive Reachable (allow : Label E → E.St → Prop) (c₀ : Conf E α) : Conf E α → Prop where
  | init : Reachable allow c₀ c₀
  | step {c c' : Conf E α} (l : Label E) : Reachable allow c₀ c → allow l c'.st →
    c.next l = some c' →
      Reachable allow c₀ c'

theorem Reachable.mono {allow allow' : Label E → E.St → Prop} {c₀ c : Conf E α}
    (hle : ∀ l st, allow l st → allow' l st) (hc : Reachable allow c₀ c) : Reachable allow' c₀ c := by
  induction hc with
  | init => exact .init
  | step l _ hl hn ih => exact ih.step l (hle l _ hl) hn

theorem Conf.next_call {c c' : Conf E α} {p : Pid} {h : E.Hint} (hn : c.next (.call p h) = some c') :
    ∃ o k a st', c.prog p = .call o k ∧ E.act h p o c.st = some (a, st') ∧
      c' = ⟨st', Function.update c.prog p (k a)⟩ := by
  simp only [Conf.next] at hn
  split at hn
  · rename_i o k hp
    obtain ⟨⟨a, st'⟩, ha, rfl⟩ := Option.map_eq_some_iff.1 hn
    exact ⟨o, k, a, st', hp, ha, rfl⟩
  · cases hn

theorem Conf.next_tick {c c' : Conf E α} {t : E.Tick} (hn : c.next (.tick t) = some c') :
    ∃ st', E.tick t c.st = some st' ∧ c' = ⟨st', c.prog⟩ := by
  obtain ⟨st', ht, rfl⟩ := Option.map_eq_some_iff.1 hn
  exact ⟨st', ht, rfl⟩

theorem Conf.next_of_act {c : Conf E α} {p : Pid} {h : E.Hint} {o : S.Op} {k : S.Ans o → Prog S α}
    {a : S.Ans o} {st' : E.St} (hp : c.prog p = .call o k) (ha : E.act h p o c.st = some (a, st')) :
    c.next (.call p h) = some ⟨st', Function.update c.prog p (k a)⟩ := by
  simp only [Conf.next, hp, ha, Option.map_some]

/-- Some allowed step is possible. -/
def Conf.CanStep (allow : Label E → E.St → Prop) (c : Conf E α) : Prop :=
  ∃ l c', c.next l = some c' ∧ allow l c'.st

theorem Conf.canStep_call {allow : Label E → E.St → Prop} {c : Conf E α} {p : Pid} {h : E.Hint}
    {o : S.Op} {k : S.Ans o → Prog S α} {a : S.Ans o} {st' : E.St} (hp : c.prog p = .call o k)
    (ha : E.act h p o c.st = some (a, st')) (hallow : allow (.call p h) st') : c.CanStep allow :=
  ⟨_, _, Conf.next_of_act hp ha, hallow⟩

theorem Conf.canStep_tick {allow : Label E → E.St → Prop} {c : Conf E α} {t : E.Tick} {st' : E.St}
    (ht : E.tick t c.st = some st') (hallow : allow (.tick t) st') : c.CanStep allow := by
  refine ⟨.tick t, ⟨st', c.prog⟩, ?_, hallow⟩
  simp only [Conf.next, ht, Option.map_some]

/-- **Assume-guarantee rule.** If the joint invariant `J` holds initially, is kept by every
environment step, and at every call allowed by `ok` both yields an admitted answer and survives the
call, then in every reachable configuration `J` holds and every program is still safe. -/
theorem Reachable.invariant {allow : Label E → E.St → Prop} {c₀ : Conf E α}
    {mon : Pid → Monitor S σ} {ok : Pid → σ → S.Op → Prop} {J : E.St → (Pid → σ) → Prop}
    {Q : Pid → α → σ → Prop} {s₀ : Pid → σ}
    (hcall : ∀ p h o st s a st', allow (.call p h) st' → J st s → ok p (s p) o →
      E.act h p o st = some (a, st') → (mon p).adm (s p) o a ∧
      J st' (Function.update s p ((mon p).upd (s p) o a)))
    (htick : ∀ t st s st', allow (.tick t) st' → J st s → E.tick t st = some st' → J st' s)
    (hJ : J c₀.st s₀) (hsafe : ∀ p, Safe (mon p) (ok p) (c₀.prog p) (s₀ p) (Q p)) {c : Conf E α}
    (hc : Reachable allow c₀ c) :
    ∃ s, J c.st s ∧ ∀ p, Safe (mon p) (ok p) (c.prog p) (s p) (Q p) := by
  induction hc with
  | init => exact ⟨s₀, hJ, hsafe⟩
  | @step c c' l _ hl hn ih =>
    obtain ⟨s, hJs, hs⟩ := ih
    cases l with
    | call p h =>
      obtain ⟨o, k, a, st', hp, ha, rfl⟩ := Conf.next_call hn
      have hsp := hs p
      rw [hp] at hsp
      obtain ⟨hadm, hJ'⟩ := hcall p h o c.st s a st' hl hJs hsp.1 ha
      refine ⟨_, hJ', fun q => ?_⟩
      by_cases hq : q = p
      · subst hq; simpa using hsp.2 a hadm
      · simpa [hq] using hs q
    | tick t =>
      obtain ⟨st', ht, rfl⟩ := Conf.next_tick hn
      exact ⟨s, htick t _ _ _ hl hJs ht, hs⟩

/-! ## Running a given schedule -/

/-- Follow the labels one after another. -/
def Conf.follow (c : Conf E α) : List (Label E) → Option (Conf E α)
  | [] => some c
  | l :: ls => match c.next l with
    | some c' => c'.follow ls
    | none => none

theorem Reachable.follow {allow : Label E → E.St → Prop} {c₀ : Conf E α} :
    ∀ {ls : List (Label E)} {c c' : Conf E α}, Reachable allow c₀ c → (∀ l ∈ ls, ∀ st, allow l st) →
      c.follow ls = some c' → Reachable allow c₀ c'
  | [], _, _, hc, _, h => by cases h; exact hc
  | l :: ls, c, c', hc, hl, h => by
    simp only [Conf.follow] at h
    split at h
    · rename_i d hd
      exact Reachable.follow (hc.step l (hl l (by simp) _) hd) (fun l' h' => hl l' (by simp [h'])) h
    · cases h

/-- The same, as long as every step is allowed. -/
def Conf.followIf (allow : Label E → E.St → Prop) [∀ l st, Decidable (allow l st)] (c : Conf E α) :
    List (Label E) → Option (Conf E α)
  | [] => some c
  | l :: ls => match c.next l with
    | some c' => if allow l c'.st then c'.followIf allow ls else none
    | none => none

theorem Reachable.followIf {allow : Label E → E.St → Prop} [∀ l st, Decidable (allow l st)]
    {c₀ : Conf E α} : ∀ {ls : List (Label E)} {c c' : Conf E α}, Reachable allow c₀ c →
      c.followIf allow ls = some c' → Reachable allow c₀ c'
  | [], _, _, hc, h => by cases h; exact hc
  | l :: ls, c, c', hc, h => by
    simp only [Conf.followIf] at h
    split at h
    · rename_i d hd
      split at h
      · rename_i hallow
        exact Reachable.followIf (hc.step l hallow hd) h
      · cases h
    · cases h

/-- A given schedule, and what is observed at its end. -/
theorem Reachable.of_follow {β : Type} {allow : Label E → E.St → Prop} {c₀ : Conf E α}
    {ls : List (Label E)} {f : Conf E α → Option β} {b : β} (hl : ∀ l ∈ ls, ∀ st, allow l st)
    (h : (c₀.follow ls).bind f = some b) :
    ∃ c, Reachable allow c₀ c ∧ f c = some b := by
  obtain ⟨c, hc, hf⟩ := Option.bind_eq_some_iff.1 h
  exact ⟨c, Reachable.init.follow hl hc, hf⟩

theorem Reachable.of_followIf {β : Type} {allow : Label E → E.St → Prop}
    [∀ l st, Decidable (allow l st)] {c₀ : Conf E α} {ls : List (Label E)} {f : Conf E α → Option β}
    {b : β} (h : (c₀.followIf allow ls).bind f = some b) :
    ∃ c, Reachable allow c₀ c ∧ f c = some b := by
  obtain ⟨c, hc, hf⟩ := Option.bind_eq_some_iff.1 h
  exact ⟨c, Reachable.init.followIf hc, hf⟩

end

end Lib
