import RdmaOpera.Plan

/-!
# Two planned processes on one connection

The joint invariant of two processes that keep their plans (`Tracked`), and the rule the claims
about two programs are proved with: each program is checked on its own against its own history, and
what the connection guarantees says what its answers mean (`Tracked.reachable`).
-/

namespace RdmaOpera

open Lib Prog

namespace Net

variable {net net' : Net}

/-- The connection moves without the two processes. -/
theorem tick_loc {t : Tick} (ht : Net.tick t net = some net') (q : Role) :
    net'.loc q = net.loc q := by
  have hpair : ∀ (r : Role) (h p : Host), h.loc = net.loc r → p.loc = net.loc r.peer →
    (pair r h p q).loc = net.loc q := by
    intro r h p hh hp
    rcases Role.eq_or_eq_peer r q with rfl | rfl
    · rw [pair_self]; exact hh
    · rw [pair_peer]; exact hp
  cases tick_cases ht with
  | @exec s lost wr e _ _ _ => exact apply_loc net s wr lost e q
  | flushSend _ _ => exact hpair _ _ _ rfl rfl
  | flushRecv _ _ => exact hpair _ _ _ rfl rfl
  | fault => rfl

theorem later_tick {t : Tick} (ht : Net.tick t net = some net') : net.Later net' where
  loc q := by rw [tick_loc ht]; exact .refl _
  stores q := by rw [tick_loc ht]
  transfers := by
    cases tick_cases ht with
    | @exec s lost wr e _ _ _ => exact (later_apply net s wr lost e).transfers
    | flushSend _ _ => exact List.prefix_rfl
    | flushRecv _ _ => exact List.prefix_rfl
    | fault => exact List.prefix_rfl

end Net

/-- The connection keeps its guarantees and both processes their plans. -/
structure Tracked (plan : Role → Plan) (net : Net) : Prop where
  holds : net.Rc
  kept : ∀ r, (plan r).Kept (net.loc r)

namespace Tracked

variable {plan : Role → Plan} {net net' : Net}

theorem start (plan : Role → Plan) : Tracked plan {} := ⟨Net.rc_start, fun _ => Plan.kept_nil _⟩

theorem called (h : Tracked plan net) {hint : Net.Hint} {r : Role} {op : VOp} {a : op.Ans}
    (ha : net.answer hint r op = some a) (hok : (plan r).allows (net.loc r) op) :
    Tracked plan (net.called r op a) where
  holds := h.holds.called ha
  kept q := by
    rw [Net.called_loc]
    split
    · rename_i hq
      subst hq
      exact (h.kept q).upd hok (Net.answer_contract ha)
    · exact h.kept q

theorem tick (h : Tracked plan net) {t : Net.Tick} (ht : Net.tick t net = some net') :
    Tracked plan net' where
  holds := h.holds.tick ht
  kept q := by
    rw [Net.tick_loc ht]
    exact h.kept q

/-- **Both programs on the connection.** `I` is what the claim at hand adds to the joint invariant,
`ok` what it asks of the calls on top of the plans, `mon` what it knows of their answers. -/
theorem reachable_of_adm {α : Type} {allow : Label rc → Net → Prop}
    {mon : Role → Monitor Verbs Local} {ok : Role → Local → VOp → Prop} {I : Net → Prop}
    {prog : Role → VProg α} {Q : Role → α → Local → Prop} (hupd : ∀ r, (mon r).upd = Local.upd)
    (hplan : ∀ r l op, ok r l op → (plan r).allows l op)
    (hadm : ∀ net hint r op a, allow (.call r hint) (net.called r op a) → Tracked plan net →
      I net → ok r (net.loc r) op → net.answer hint r op = some a → (mon r).adm (net.loc r) op a)
    (hcall : ∀ net hint r op a, allow (.call r hint) (net.called r op a) → Tracked plan net →
      I net → ok r (net.loc r) op → net.answer hint r op = some a → I (net.called r op a))
    (htick : ∀ net t net', allow (.tick t) net' → Tracked plan net → I net →
      Net.tick t net = some net' → I net')
    (hI : I {}) (hsafe : ∀ r, Safe (mon r) (ok r) (prog r) {} (Q r))
    {c : Conf rc α} (hc : Reachable allow (RdmaOpera.start prog) c) :
    Tracked plan c.st ∧ I c.st ∧ ∀ r, Safe (mon r) (ok r) (c.prog r) (Net.loc c.st r) (Q r) := by
  let J : Net → (Role → Local) → Prop := fun net s => (Tracked plan net ∧ I net) ∧
    ∀ r, s r = net.loc r
  have hstart : J {} fun _ => {} := ⟨⟨start plan, hI⟩, fun _ => rfl⟩
  have hinv := Reachable.invariant ?_ ?_ hstart hsafe hc
  · obtain ⟨s, ⟨⟨ht, hIc⟩, hs⟩, hsf⟩ := hinv
    refine ⟨ht, hIc, fun r => ?_⟩
    rw [← hs r]
    exact hsf r
  · intro r hint op (net : Net) s a net' hl hJ hok hact
    obtain ⟨⟨ht, hIn⟩, hs⟩ := hJ
    obtain ⟨b, ha, he⟩ := Option.map_eq_some_iff.1 hact
    cases he
    rw [hs r] at hok ⊢
    refine ⟨hadm net hint r op a hl ht hIn hok ha,
      ⟨ht.called ha (hplan r _ _ hok), hcall net hint r op a hl ht hIn hok ha⟩, fun q => ?_⟩
    rw [hupd r]
    refine Eq.trans ?_ (Net.called_loc net r q op a).symm
    by_cases hq : q = r
    · subst hq
      rw [Function.update_self, if_pos rfl]
    · rw [Function.update_of_ne hq, if_neg hq]
      exact hs q
  · intro t (net : Net) s net' hl hJ hstep
    obtain ⟨⟨ht, hIn⟩, hs⟩ := hJ
    refine ⟨⟨ht.tick hstep, htick net t net' hl ht hIn hstep⟩, fun q => ?_⟩
    rw [hs q, Net.tick_loc hstep]

/-- The same for what a regime admits. -/
theorem reachable_of_ok {α : Type} {allow : Label rc → Net → Prop} {R : Regime}
    {D : Role → Nat → List UInt8 → Prop} {ok : Role → Local → VOp → Prop} {I : Net → Prop}
    {prog : Role → VProg α} {Q : Role → α → Local → Prop}
    (hplan : ∀ r l op, ok r l op → (plan r).allows l op)
    (hcalls : ∀ r hint net, allow (.call r hint) net → R.calls → Net.Hint.fail hint = false)
    (hreads : ∀ net r p len data k, Tracked plan net → I net → net.read r p len = some data →
      Arrived (net.loc r) k p len → D r k data)
    (hgood : ∀ net hint r op a, R.completions → allow (.call r hint) (net.called r op a) →
      Tracked plan net → I net → net.answer hint r op = some a → GoodWcs op a)
    (hcall : ∀ net hint r op a, allow (.call r hint) (net.called r op a) → Tracked plan net →
      I net → ok r (net.loc r) op → net.answer hint r op = some a → I (net.called r op a))
    (htick : ∀ net t net', allow (.tick t) net' → Tracked plan net → I net →
      Net.tick t net = some net' → I net')
    (hI : I {}) (hsafe : ∀ r, Safe (tracking R (D r)) (ok r) (prog r) {} (Q r))
    {c : Conf rc α} (hc : Reachable allow (RdmaOpera.start prog) c) :
    Tracked plan c.st ∧ I c.st ∧
      ∀ r, Safe (tracking R (D r)) (ok r) (c.prog r) (Net.loc c.st r) (Q r) := by
  refine reachable_of_adm (fun _ => rfl) hplan ?_ hcall htick hI hsafe hc
  intro net hint r op a hl ht hIn _ ha
  refine ⟨Net.answer_contract ha, ?_, fun hc => Net.answer_unfailing ha (hcalls _ _ _ hl hc),
    fun hc => hgood net hint r op a hc hl ht hIn ha⟩
  cases op with
  | load p len => exact fun k hk => hreads net r p len a k ht hIn ha hk
  | _ => trivial

/-- The same if nothing is asked on top. -/
theorem reachable {α : Type} {allow : Label rc → Net → Prop} {R : Regime}
    {D : Role → Nat → List UInt8 → Prop} {I : Net → Prop} {prog : Role → VProg α}
    {Q : Role → α → Local → Prop}
    (hcalls : ∀ r hint net, allow (.call r hint) net → R.calls → Net.Hint.fail hint = false)
    (hreads : ∀ net r p len data k, Tracked plan net → I net → net.read r p len = some data →
      Arrived (net.loc r) k p len → D r k data)
    (hgood : ∀ net hint r op a, R.completions → allow (.call r hint) (net.called r op a) →
      Tracked plan net → I net → net.answer hint r op = some a → GoodWcs op a)
    (hcall : ∀ net hint r op a, allow (.call r hint) (net.called r op a) → Tracked plan net →
      I net → (plan r).ok R (net.loc r) op → net.answer hint r op = some a → I (net.called r op a))
    (htick : ∀ net t net', allow (.tick t) net' → Tracked plan net → I net →
      Net.tick t net = some net' → I net')
    (hI : I {}) (hsafe : ∀ r, Safe (tracking R (D r)) ((plan r).ok R) (prog r) {} (Q r))
    {c : Conf rc α} (hc : Reachable allow (RdmaOpera.start prog) c) :
    Tracked plan c.st ∧ I c.st ∧
      ∀ r, Safe (tracking R (D r)) ((plan r).ok R) (c.prog r) (Net.loc c.st r) (Q r) :=
  reachable_of_ok (fun _ _ _ hok => hok.1) hcalls hreads hgood hcall htick hI hsafe hc

end Tracked

end RdmaOpera
