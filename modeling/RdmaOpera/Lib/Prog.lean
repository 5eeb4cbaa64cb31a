import Mathlib.Logic.Function.Basic

/-!
# Programs that call a library, and the rules to reason about them

A program over a signature of library calls is a finite tree: it returns, it makes a call and
goes on with the answer, or it never gets any further (`spin`: an endless loop with no call in
it, or undefined behaviour). Nothing here knows which library it is.

| here | what it is for |
| --- | --- |
| `Prog`, `forN`   | programs and the counted loop `for (n = 0; n < count; n++)` |
| `Monitor`        | a ghost state that watches the calls, and the answers it admits |
| `Safe`           | every call made is allowed by `ok`, every return satisfies `Q` |
| `Reach`, `play`  | one program run against arbitrary admitted answers, and against given ones |
-/

namespace Lib

/-- A library interface: its calls and, for each call, the type of its answer. -/
structure Sig where
  Op : Type
  Ans : Op → Type

inductive Prog (S : Sig) (α : Type) where
  | ret (a : α)
  | call (o : S.Op) (k : S.Ans o → Prog S α)
  | spin

namespace Prog

variable {S : Sig} {α β γ σ : Type}

def bind : Prog S α → (α → Prog S β) → Prog S β
  | .ret a, f => f a
  | .call o k, f => .call o fun a => (k a).bind f
  | .spin, _ => .spin

instance : Monad (Prog S) where
  pure := .ret
  bind := Prog.bind

@[simp] theorem pure_eq (a : α) : (pure a : Prog S α) = .ret a := rfl
@[simp] theorem ret_bind (a : α) (f : α → Prog S β) : (Prog.ret a >>= f) = f a := rfl
@[simp] theorem call_bind (o : S.Op) (k : S.Ans o → Prog S α) (f : α → Prog S β) :
    (Prog.call o k >>= f) = .call o fun a => k a >>= f := rfl
@[simp] theorem spin_bind (f : α → Prog S β) : ((.spin : Prog S α) >>= f) = .spin := rfl

@[simp] theorem bind_assoc (p : Prog S α) (f : α → Prog S β) (g : β → Prog S γ) :
    (p >>= f) >>= g = p >>= fun a => f a >>= g := by
  induction p with
  | ret a => rfl
  | call o k ih => simp only [call_bind, ih]
  | spin => rfl

@[simp] theorem bind_ret (p : Prog S α) : (p >>= .ret) = p := by
  induction p with
  | ret a => rfl
  | call o k ih => simp only [call_bind, ih]
  | spin => rfl

@[simp] theorem map_eq (f : α → β) (p : Prog S α) : f <$> p = p >>= fun a => .ret (f a) := rfl

/-- What the program has returned, if it has. -/
def value : Prog S α → Option α
  | .ret a => some a
  | _ => none

theorem eq_ret_of_value {p : Prog S α} {a : α} (h : p.value = some a) : p = .ret a := by
  cases p with
  | ret b => cases h; rfl
  | call o k => cases h
  | spin => cases h

/-- A single call. -/
def op (o : S.Op) : Prog S (S.Ans o) := .call o .ret

/-! ## The counted loop -/

/-- `k` turns of a loop whose counter stands at `i`. -/
def loopFrom (body : Nat → β → Prog S β) : Nat → Nat → β → Prog S β
  | _, 0, b => .ret b
  | i, k + 1, b => body i b >>= loopFrom body (i + 1) k

/-- `for (size_t n = 0; n < count; n++) body`, with the loop's variables threaded through. -/
def forN (count : Nat) (body : Nat → β → Prog S β) (b : β) : Prog S β := loopFrom body 0 count b

theorem loopFrom_add (body : Nat → β → Prog S β) (m : Nat) :
    ∀ (k i : Nat) (b : β), loopFrom body i (k + m) b =
      loopFrom body i k b >>= loopFrom body (i + k) m
  | 0, i, b => by simp [loopFrom]
  | k + 1, i, b => by
    have e : k + 1 + m = (k + m) + 1 := by omega
    rw [e]
    simp only [loopFrom, bind_assoc]
    congr 1; funext b'
    rw [loopFrom_add body m k (i + 1) b']
    congr 2; omega

/-! ## Monitors and safety -/

/-- A ghost state updated by every call and its answer. `adm` says which answers are to be
expected in which ghost state, `spins` whether a program may stop making progress. -/
structure Monitor (S : Sig) (σ : Type) where
  upd : σ → (o : S.Op) → S.Ans o → σ
  adm : σ → (o : S.Op) → S.Ans o → Prop
  spins : Prop

/-- The same monitor, if it does not matter that a program stops. -/
def Monitor.lenient (m : Monitor S σ) : Monitor S σ := ⟨m.upd, m.adm, True⟩

/-- From ghost state `s`, and as long as the answers are admitted, every call `p` makes is allowed
by `ok` and every value it returns satisfies `Q`. -/
def Safe (m : Monitor S σ) (ok : σ → S.Op → Prop) : Prog S α → σ → (α → σ → Prop) → Prop
  | .ret a, s, Q => Q a s
  | .call o k, s, Q => ok s o ∧ ∀ a, m.adm s o a → Safe m ok (k a) (m.upd s o a) Q
  | .spin, _, _ => m.spins

section safe
variable {m : Monitor S σ} {ok : σ → S.Op → Prop}

@[simp] theorem safe_ret {a : α} {s : σ} {Q : α → σ → Prop} : Safe m ok (.ret a) s Q ↔ Q a s :=
  Iff.rfl

@[simp] theorem safe_call {o : S.Op} {k : S.Ans o → Prog S α} {s : σ} {Q : α → σ → Prop} :
    Safe m ok (.call o k) s Q ↔ ok s o ∧ ∀ a, m.adm s o a → Safe m ok (k a) (m.upd s o a) Q := Iff.rfl

@[simp] theorem safe_spin {s : σ} {Q : α → σ → Prop} : Safe m ok (.spin : Prog S α) s Q ↔ m.spins :=
  Iff.rfl

/-- Sequencing: the second program is safe from wherever the first one may end. -/
@[simp] theorem safe_bind {p : Prog S α} {f : α → Prog S β} {s : σ} {Q : β → σ → Prop} :
    Safe m ok (p >>= f) s Q ↔ Safe m ok p s fun a t => Safe m ok (f a) t Q := by
  induction p generalizing s with
  | ret a => rfl
  | call o k ih => simp only [call_bind, safe_call, ih]
  | spin => rfl

theorem Safe.mono {p : Prog S α} {s : σ} {Q R : α → σ → Prop} (h : Safe m ok p s Q)
    (hQR : ∀ a t, Q a t → R a t) : Safe m ok p s R := by
  induction p generalizing s with
  | ret a => exact hQR _ _ h
  | call o k ih => exact ⟨h.1, fun a ha => ih a (h.2 a ha)⟩
  | spin => exact h

/-- What is known of a program in two ways, the second under a monitor that admits no more answers. -/
theorem Safe.along {m' : Monitor S σ} {ok' : σ → S.Op → Prop} {p : Prog S α} {s : σ}
    {Q R : α → σ → Prop} (h : Safe m ok p s Q) (h' : Safe m' ok' p s R) (hupd : m'.upd = m.upd)
    (hadm : ∀ s o a, m'.adm s o a → m.adm s o a) :
    Safe m' (fun s o => ok s o ∧ ok' s o) p s fun a t => Q a t ∧ R a t := by
  induction p generalizing s with
  | ret a => exact ⟨h, h'⟩
  | call o k ih =>
    refine ⟨⟨h.1, h'.1⟩, fun a ha => ih a ?_ (h'.2 a ha)⟩
    rw [hupd]
    exact h.2 a (hadm s o a ha)
  | spin => exact h'

theorem Safe.both {ok' : σ → S.Op → Prop} {p : Prog S α} {s : σ} {Q R : α → σ → Prop}
    (h : Safe m ok p s Q) (h' : Safe m ok' p s R) :
    Safe m (fun s o => ok s o ∧ ok' s o) p s fun a t => Q a t ∧ R a t :=
  h.along h' rfl fun _ _ _ ha => ha

/-- A monitor that admits less, and minds less. -/
theorem Safe.relax {m' : Monitor S σ} {ok' : σ → S.Op → Prop} {p : Prog S α} {s : σ}
    {Q : α → σ → Prop} (h : Safe m ok p s Q) (hupd : m'.upd = m.upd)
    (hadm : ∀ s o a, m'.adm s o a → m.adm s o a) (hspin : m.spins → m'.spins)
    (hok : ∀ s o, ok s o → ok' s o) : Safe m' ok' p s Q := by
  induction p generalizing s with
  | ret a => exact h
  | call o k ih => exact ⟨hok s o h.1, fun a ha => hupd ▸ ih a (h.2 a (hadm s o a ha))⟩
  | spin => exact hspin h

theorem Safe.and {p : Prog S α} {s : σ} {Q R : α → σ → Prop} (h : Safe m ok p s Q)
    (h' : Safe m ok p s R) :
    Safe m ok p s fun a t => Q a t ∧ R a t :=
  (h.both h').relax rfl (fun _ _ _ ha => ha) id fun _ _ hok => hok.1

/-- Sequencing, with the postcondition of the first program named. -/
theorem Safe.bind {p : Prog S α} {f : α → Prog S β} {s : σ} {R : α → σ → Prop} {Q : β → σ → Prop}
    (hp : Safe m ok p s R) (hf : ∀ a t, R a t → Safe m ok (f a) t Q) : Safe m ok (p >>= f) s Q :=
  safe_bind.2 (hp.mono hf)

@[simp] theorem safe_ite {c : Prop} [Decidable c] {p q : Prog S α} {s : σ} {Q : α → σ → Prop} :
    Safe m ok (if c then p else q) s Q ↔ (c → Safe m ok p s Q) ∧ (¬c → Safe m ok q s Q) := by
  split <;> simp_all

theorem safe_loopFrom {body : Nat → β → Prog S β} (I : Nat → β → σ → Prop) :
    ∀ (k i : Nat) (b : β) (s : σ), I i b s →
      (∀ j b s, i ≤ j → j < i + k → I j b s → Safe m ok (body j b) s (I (j + 1))) →
      Safe m ok (loopFrom body i k b) s (I (i + k))
  | 0, _, _, _, h, _ => h
  | k + 1, i, b, s, h, hstep => by
    refine (hstep i b s (Nat.le_refl i) (by omega) h).bind fun b' t hI => ?_
    have := safe_loopFrom I k (i + 1) b' t hI fun j b s h1 h2 hj =>
      hstep j b s (by omega) (by omega) hj
    rwa [show i + 1 + k = i + (k + 1) by omega] at this

/-- **Loop rule**: an invariant that every turn carries from `n` to `n + 1` holds at `count` on
exit. -/
theorem safe_forN {count : Nat} {body : Nat → β → Prog S β} {b : β} {s : σ} (I : Nat → β → σ → Prop)
    (h0 : I 0 b s) (hstep : ∀ n b s, n < count → I n b s → Safe m ok (body n b) s (I (n + 1))) :
    Safe m ok (forN count body b) s (I count) := by
  have := safe_loopFrom I count 0 b s h0 fun j b s _ hj hI => hstep j b s (by omega) hI
  rwa [Nat.zero_add] at this

/-- A program may do anything as long as nothing is asked of it. -/
theorem safe_trivial (hok : ∀ s o, ok s o) (hspin : m.spins) {p : Prog S α} {s : σ} :
    Safe m ok p s fun _ _ => True := by
  induction p generalizing s with
  | ret a => trivial
  | call o k ih => exact ⟨hok s o, fun a _ => ih a⟩
  | spin => exact hspin

/-- Sequencing after a program that may do anything. -/
theorem safe_bind_any (hok : ∀ s o, ok s o) (hspin : m.spins) {p : Prog S α} {f : α → Prog S β}
    {s : σ} {Q : β → σ → Prop} (hf : ∀ a t, Safe m ok (f a) t Q) : Safe m ok (p >>= f) s Q :=
  (safe_trivial hok hspin).bind fun a t _ => hf a t

/-- What every allowed call keeps holds at every call and in the end. -/
theorem Safe.invariant {ok' : σ → S.Op → Prop} {p : Prog S α} {s : σ} {Q : α → σ → Prop}
    (h : Safe m ok p s Q) {I : σ → Prop} (hI : I s) (hok : ∀ s o, I s → ok s o → ok' s o)
    (hkeep : ∀ s o a, I s → ok s o → m.adm s o a → I (m.upd s o a)) :
    Safe m ok' p s fun a t => Q a t ∧ I t := by
  induction p generalizing s with
  | ret a => exact ⟨h, hI⟩
  | call o k ih => exact ⟨hok s o hI h.1, fun a ha => ih a (h.2 a ha) (hkeep s o a hI h.1 ha)⟩
  | spin => exact h

/-- Two ghost states side by side. -/
def Monitor.prod {τ : Type} (m : Monitor S σ) (m' : Monitor S τ) : Monitor S (σ × τ) where
  upd s o a := (m.upd s.1 o a, m'.upd s.2 o a)
  adm s o a := m.adm s.1 o a ∧ m'.adm s.2 o a
  spins := m.spins ∧ m'.spins

/-- A program watched by two monitors at once. -/
theorem Safe.prod {τ : Type} {m' : Monitor S τ} {ok' : τ → S.Op → Prop} {p : Prog S α} {s : σ}
    {s' : τ} {Q : α → σ → Prop} {Q' : α → τ → Prop} (h : Safe m ok p s Q)
    (h' : Safe m' ok' p s' Q') :
    Safe (m.prod m') (fun s o => ok s.1 o ∧ ok' s.2 o) p (s, s') fun a t => Q a t.1 ∧ Q' a t.2 := by
  induction p generalizing s s' with
  | ret a => exact ⟨h, h'⟩
  | call o k ih => exact ⟨⟨h.1, h'.1⟩, fun a ha => ih a (h.2 a ha.1) (h'.2 a ha.2)⟩
  | spin => exact ⟨h, h'⟩

/-- The call can be answered. -/
def Answerable (m : Monitor S σ) (s : σ) (o : S.Op) : Prop := ∃ a, m.adm s o a

end safe

/-! ## Runs of one program -/

/-- `Reach m p s q t`: some admitted answers take `p` in ghost state `s` to `q` in ghost state `t`. -/
inductive Reach (m : Monitor S σ) : Prog S α → σ → Prog S α → σ → Prop where
  | refl (p : Prog S α) (s : σ) : Reach m p s p s
  | call {o : S.Op} {k : S.Ans o → Prog S α} {s t : σ} {q : Prog S α} (a : S.Ans o) :
      m.adm s o a → Reach m (k a) (m.upd s o a) q t → Reach m (.call o k) s q t

section reach
variable {m : Monitor S σ} {ok : σ → S.Op → Prop}

theorem Reach.trans {p q r : Prog S α} {s t u : σ} (h : Reach m p s q t) (h' : Reach m q t r u) :
    Reach m p s r u := by
  induction h with
  | refl => exact h'
  | call a ha _ ih => exact .call a ha (ih h')

theorem Reach.bind {p q : Prog S α} {s t : σ} (h : Reach m p s q t) (f : α → Prog S β) :
    Reach m (p >>= f) s (q >>= f) t := by
  induction h with
  | refl => exact .refl _ _
  | call a ha _ ih => exact .call a ha ih

/-- Whatever a safe program has reached is safe again. -/
theorem Safe.reach {p q : Prog S α} {s t : σ} {Q : α → σ → Prop} (hs : Safe m ok p s Q)
    (h : Reach m p s q t) : Safe m ok q t Q := by
  induction h with
  | refl => exact hs
  | call a ha _ ih => exact ih (hs.2 a ha)

/-- What every call keeps holds wherever a run has come. -/
theorem Safe.kept {I : σ → Prop} {p q : Prog S α} {s t : σ} {Q : α → σ → Prop}
    (hs : Safe m (fun s o => I s → ∀ a, m.adm s o a → I (m.upd s o a)) p s Q) (h : Reach m p s q t)
    (hI : I s) : I t := by
  induction h with
  | refl => exact hI
  | call a ha _ ih => exact ih (hs.2 a ha) (hs.1 hI a ha)

/-- A safe program that cannot spin, and whose calls always have an admitted answer, has a run
that returns: programs are finite trees. -/
theorem Safe.returns {p : Prog S α} {s : σ} {Q : α → σ → Prop} (hs : Safe m ok p s Q)
    (hspin : ¬m.spins) (hans : ∀ s o, ok s o → ∃ a, m.adm s o a) :
    ∃ a t, Reach m p s (.ret a) t ∧ Q a t := by
  induction p generalizing s with
  | ret a => exact ⟨a, s, .refl _ _, hs⟩
  | call o k ih =>
    obtain ⟨a, ha⟩ := hans s o hs.1
    obtain ⟨b, t, hr, hQ⟩ := ih a (hs.2 a ha)
    exact ⟨b, t, .call a ha hr, hQ⟩
  | spin => exact absurd hs hspin

/-- What every return finds and no allowed call can bring about holds at every call already, before
and after it. -/
theorem Safe.anticipate_allowed {p : Prog S α} {s : σ} {Q : α → σ → Prop} {F : σ → Prop}
    (hs : Safe m ok p s Q) (hspin : ¬m.spins) (hans : ∀ s o, ok s o → ∃ a, m.adm s o a)
    (hF : ∀ s o a, ok s o → F (m.upd s o a) → F s) (hQ : ∀ a t, Q a t → F t) :
    F s ∧ Safe m (fun s o => ok s o ∧ ∀ a, m.adm s o a → F (m.upd s o a)) p s Q := by
  induction p generalizing s with
  | ret a => exact ⟨hQ a s hs, hs⟩
  | call o k ih =>
    obtain ⟨a, ha⟩ := hans s o hs.1
    have hnext := fun a ha => ih a (hs.2 a ha)
    exact ⟨hF s o a hs.1 (hnext a ha).1, ⟨hs.1, fun a ha => (hnext a ha).1⟩,
      fun a ha => (hnext a ha).2⟩
  | spin => exact absurd hs hspin

/-- The same if no call whatever can. -/
theorem Safe.anticipate {p : Prog S α} {s : σ} {Q : α → σ → Prop} {F : σ → Prop}
    (hs : Safe m ok p s Q) (hspin : ¬m.spins) (hans : ∀ s o, ok s o → ∃ a, m.adm s o a)
    (hF : ∀ s o a, F (m.upd s o a) → F s) (hQ : ∀ a t, Q a t → F t) :
    F s ∧ Safe m (fun s o => ok s o ∧ ∀ a, m.adm s o a → F (m.upd s o a)) p s Q :=
  hs.anticipate_allowed hspin hans (fun s o a _ => hF s o a) hQ

/-- Some run of `p` comes to a call that satisfies `P`. -/
def Hits (m : Monitor S σ) (p : Prog S α) (s : σ) (P : S.Op → σ → Prop) : Prop :=
  ∃ o k t, Reach m p s (.call o k) t ∧ P o t

theorem Hits.here {o : S.Op} {k : S.Ans o → Prog S α} {s : σ} {P : S.Op → σ → Prop} (h : P o s) :
    Hits m (.call o k) s P := ⟨o, k, s, .refl _ _, h⟩

theorem Hits.bind {p : Prog S α} {s : σ} {P : S.Op → σ → Prop} (h : Hits m p s P) (f : α → Prog S β) :
    Hits m (p >>= f) s P := by
  obtain ⟨o, k, t, hr, hP⟩ := h
  exact ⟨o, _, t, hr.bind f, hP⟩

theorem Hits.reach {p q : Prog S α} {s t : σ} {P : S.Op → σ → Prop} (h : Reach m p s q t)
    (hq : Hits m q t P) :
    Hits m p s P := by
  obtain ⟨o, k, u, hr, hP⟩ := hq
  exact ⟨o, k, u, h.trans hr, hP⟩

/-- A program that surely returns, and from wherever it does the rest hits. -/
theorem Safe.hits {p : Prog S α} {f : α → Prog S β} {s : σ} {Q : α → σ → Prop} {P : S.Op → σ → Prop}
    (hs : Safe m ok p s Q) (hspin : ¬m.spins) (hans : ∀ s o, ok s o → ∃ a, m.adm s o a)
    (hf : ∀ a t, Q a t → Hits m (f a) t P) : Hits m (p >>= f) s P := by
  obtain ⟨a, t, hr, hQ⟩ := hs.returns hspin hans
  exact (hf a t hQ).reach (hr.bind f)

/-- The run against a strategy for the answers. -/
def play (m : Monitor S σ) (strategy : σ → (o : S.Op) → S.Ans o) : Prog S α → σ → Option (α × σ)
  | .ret a, s => some (a, s)
  | .call o k, s => play m strategy (k (strategy s o)) (m.upd s o (strategy s o))
  | .spin, _ => none

/-- If the strategy is an admitted one then its run is one of the program's. -/
theorem exists_reach_of_play {strategy : σ → (o : S.Op) → S.Ans o}
    (hadm : ∀ s o, m.adm s o (strategy s o)) {p : Prog S α} {s : σ} {check : α × σ → Bool}
    (h : (play m strategy p s).any check = true) :
    ∃ a t, Reach m p s (.ret a) t ∧ check (a, t) = true := by
  induction p generalizing s with
  | ret a => exact ⟨a, s, .refl _ _, h⟩
  | call o k ih =>
    obtain ⟨a, t, hreach, hcheck⟩ := ih _ h
    exact ⟨a, t, .call _ (hadm s o) hreach, hcheck⟩
  | spin => exact nomatch h

/-- A monitor that admits more reaches at least as much. -/
theorem Reach.mono {m' : Monitor S σ} (hupd : m'.upd = m.upd)
    (hadm : ∀ s o a, m.adm s o a → m'.adm s o a) {p q : Prog S α} {s t : σ} (h : Reach m p s q t) :
    Reach m' p s q t := by
  induction h with
  | refl => exact .refl _ _
  | call a ha _ ih => exact .call a (hadm _ _ _ ha) (hupd ▸ ih)

end reach

/-! ## Programs that make certain calls only -/

/-- Every call `p` can make satisfies `P`, whatever the answers. -/
def Calls (P : S.Op → Prop) : Prog S α → Prop
  | .ret _ => True
  | .call o k => P o ∧ ∀ a, Calls P (k a)
  | .spin => True

section calls
variable {P : S.Op → Prop}

@[simp] theorem calls_ret (a : α) : Calls P (.ret a : Prog S α) := trivial
@[simp] theorem calls_call (o : S.Op) (k : S.Ans o → Prog S α) :
    Calls P (.call o k) ↔ P o ∧ ∀ a, Calls P (k a) := Iff.rfl
@[simp] theorem calls_spin : Calls P (.spin : Prog S α) := trivial
@[simp] theorem calls_op (o : S.Op) : Calls P (Prog.op o) ↔ P o :=
  ⟨fun h => h.1, fun h => ⟨h, fun _ => trivial⟩⟩

theorem Calls.bind {p : Prog S α} {f : α → Prog S β} (hp : Calls P p) (hf : ∀ a, Calls P (f a)) :
    Calls P (p >>= f) := by
  induction p with
  | ret a => exact hf a
  | call o k ih => exact ⟨hp.1, fun a => ih a (hp.2 a)⟩
  | spin => trivial

theorem Calls.ite {c : Prop} [Decidable c] {p q : Prog S α} (hp : Calls P p) (hq : Calls P q) :
    Calls P (if c then p else q) := by
  split
  · exact hp
  · exact hq

theorem calls_loopFrom {body : Nat → β → Prog S β} (hbody : ∀ n b, Calls P (body n b)) :
    ∀ (k i : Nat) (b : β), Calls P (loopFrom body i k b)
  | 0, _, _ => trivial
  | k + 1, i, b => (hbody i b).bind fun b' => calls_loopFrom hbody k (i + 1) b'

theorem calls_forN {body : Nat → β → Prog S β} (hbody : ∀ n b, Calls P (body n b)) (count : Nat)
    (b : β) :
    Calls P (forN count body b) := calls_loopFrom hbody count 0 b

theorem Calls.reach {m : Monitor S σ} {p q : Prog S α} {s t : σ} (hp : Calls P p)
    (h : Reach m p s q t) : Calls P q := by
  induction h with
  | refl => exact hp
  | call a _ _ ih => exact ih (hp.2 a)

/-- Such a program keeps whatever its calls keep, on top of what else is known of it. -/
theorem Calls.safe {m : Monitor S σ} {ok ok' : σ → S.Op → Prop} {p : Prog S α} {s : σ}
    {Q : α → σ → Prop} {I : σ → Prop} (hc : Calls P p) (hs : Safe m ok p s Q) (hI : I s)
    (hok : ∀ s o, P o → I s → ok s o → ok' s o)
    (hkeep : ∀ s o a, P o → I s → m.adm s o a → I (m.upd s o a)) :
    Safe m ok' p s fun a t => Q a t ∧ I t := by
  induction p generalizing s with
  | ret a => exact ⟨hs, hI⟩
  | call o k ih =>
    exact ⟨hok s o hc.1 hI hs.1, fun a ha => ih a (hc.2 a) (hs.2 a ha) (hkeep s o a hc.1 hI ha)⟩
  | spin => exact hs

/-- If it may stop, nothing else has to be known of it. -/
theorem Calls.keeps {m : Monitor S σ} {ok : σ → S.Op → Prop} {p : Prog S α} {s : σ} {I : σ → Prop}
    (hc : Calls P p) (hspin : m.spins) (hI : I s) (hok : ∀ s o, P o → I s → ok s o)
    (hkeep : ∀ s o a, P o → I s → m.adm s o a → I (m.upd s o a)) :
    Safe m ok p s fun _ t => I t := by
  have hany : Safe m (fun _ _ => True) p s fun _ _ => True :=
    safe_trivial (fun _ _ => trivial) hspin
  exact (hc.safe hany hI (fun s o ho hI _ => hok s o ho hI) hkeep).mono fun _ _ h => h.2

end calls

/-! ## Traces -/

/-- A call together with its answer. -/
structure Event (S : Sig) where
  op : S.Op
  ans : S.Ans op

/-- The monitor that writes the events down and expects those that satisfy `adm`. -/
def Monitor.trace (adm : Event S → Prop) (spins : Prop) : Monitor S (List (Event S)) where
  upd tr o a := tr ++ [⟨o, a⟩]
  adm _ o a := adm ⟨o, a⟩
  spins := spins

section trace
variable {adm adm' : Event S → Prop} {spins spins' : Prop}

@[simp] theorem Monitor.trace_adm (tr : List (Event S)) (o : S.Op) (a : S.Ans o) :
    (Monitor.trace adm spins).adm tr o a ↔ adm ⟨o, a⟩ := Iff.rfl
@[simp] theorem Monitor.trace_spins : (Monitor.trace adm spins).spins ↔ spins := Iff.rfl

theorem Reach.trace_mono {p q : Prog S α} {tr tr' : List (Event S)}
    (h : Reach (.trace adm spins) p tr q tr') (hadm : ∀ e, adm e → adm' e) :
    Reach (.trace adm' spins') p tr q tr' := by
  induction h with
  | refl => exact .refl _ _
  | call a ha _ ih => exact .call a (hadm _ ha) ih

/-- Every event written down was an admitted one. -/
theorem Reach.trace_adm {p q : Prog S α} {tr tr' : List (Event S)}
    (h : Reach (.trace adm spins) p tr q tr') (htr : ∀ e ∈ tr, adm e) : ∀ e ∈ tr', adm e := by
  induction h with
  | refl => exact htr
  | call a ha _ ih =>
    refine ih fun e he => ?_
    rcases List.mem_append.1 he with he | he
    · exact htr e he
    · obtain rfl := List.mem_singleton.1 he
      exact ha

end trace

/-- `p` run against some answers makes the calls of `tr` and returns `a`. -/
def Returns (p : Prog S α) (tr : List (Event S)) (a : α) : Prop :=
  Reach (.trace (fun _ => True) True) p [] (.ret a) tr

/-- What a program always ensures holds of every value it returns. -/
theorem Returns.of_safe {p : Prog S α} {tr : List (Event S)} {a : α} {Q : α → Prop}
    (h : Returns p tr a)
    (hp : Safe (.trace (fun _ => True) True) (fun _ _ => True) p [] fun a _ => Q a) : Q a :=
  hp.reach h

end Prog

end Lib
