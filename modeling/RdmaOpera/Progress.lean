import Mathlib.Algebra.BigOperators.Group.Finset.Basic
import RdmaOpera.Lib.Termination
import RdmaOpera.Standing

/-!
# What still moves while nothing fails

On a connection that stands, the oldest request of a host is carried out, or is a message that waits
for a receive (`Standing.effect_message`); a process goes on, or waits for a completion that is not
there yet (`step_or_awaits`). Each request is carried out once, so no run goes on for ever
(`nothingFails_terminates`). Requests may be unsignaled: `signaled` counts those that leave a
completion.
-/

namespace RdmaOpera

open Lib Prog

namespace Local

/-- The requests posted that leave a completion when they succeed. -/
def signaled (l : Local) : Nat := (l.sq.filter (·.signaled)).length

/-- Everything posted has been polled, up to the last request. -/
structure Drained (l : Local) : Prop where
  sends : l.sWcs.length = l.signaled
  last : ∀ wr, l.sq[l.sq.length - 1]? = some wr → wr.signaled
  recvs : l.rWcs.length = l.rq.length

end Local

theorem length_le_of_getElem? {α : Type} {xs : List α} {n : Nat}
    (h : ∀ (k : Nat) (x : α), xs[k]? = some x → k < n) : xs.length ≤ n := by
  by_contra hlt
  have := h n _ (List.getElem?_eq_getElem (by omega))
  omega

/-- The signaled requests of a queue before its last one, which is signaled. -/
theorem signaled_lt {done sq : List SendWr} {wr : SendWr} (hpre : done <+: sq)
    (hlast : sq[sq.length - 1]? = some wr) (hwr : wr.signaled) (hlt : done.length < sq.length) :
    (done.filter (·.signaled)).length < (sq.filter (·.signaled)).length := by
  obtain ⟨rest, rfl⟩ := hpre
  have hrest : wr ∈ rest := by
    rw [List.length_append] at hlast hlt
    rw [List.getElem?_append_right (by omega)] at hlast
    exact List.mem_of_getElem? hlast
  have hpos : 0 < (rest.filter (·.signaled)).length :=
    List.length_pos_of_mem (List.mem_filter.2 ⟨hrest, hwr⟩)
  rw [List.filter_append, List.length_append]
  omega

namespace Net

variable {net net' : Net}

/-! ## Counting -/

/-- The completions of a queue are those of its signaled requests that have been carried out. -/
theorem Rc.scq_signaled (h : net.Rc) (hb : net.broken = false) (r : Role) :
    (net.host r).scq.length = (((net.done r).map (·.wr)).filter (·.signaled)).length ∧
      (net.host r).sdone = ((net.done r).map (·.wr)).length := by
  obtain ⟨hsdone, -, hscq⟩ := h.standing hb r
  refine ⟨?_, by rw [hsdone, List.length_map]⟩
  rw [hscq, List.length_map, List.filter_map, List.length_map]
  rfl

/-- No more completions have been polled than requests leave. -/
theorem Rc.sWcs_le_signaled (h : net.Rc) (hb : net.broken = false) (r : Role) :
    (net.loc r).sWcs.length ≤ (net.loc r).signaled := by
  refine (h.spolled r).length_le.trans ?_
  rw [(h.scq_signaled hb r).1]
  exact ((h.done_sq r).filter _).length_le

/-- A signaled request whose completion is not there yet has not been carried out. -/
theorem Rc.pending (h : net.Rc) (hb : net.broken = false) {r : Role}
    (hlt : (net.host r).scq.length < (net.loc r).signaled) :
    (net.host r).sdone < (net.loc r).sq.length := by
  obtain ⟨hscq, hsdone⟩ := h.scq_signaled hb r
  have hpre := h.done_sq r
  have hle := hpre.length_le
  rw [hscq] at hlt
  rw [hsdone]
  by_contra hge
  rw [hpre.eq_of_length (by omega)] at hlt
  exact Nat.lt_irrefl _ hlt

/-- A process that has polled everything has nothing queued. -/
theorem Rc.settled (h : net.Rc) (hb : net.broken = false) {r : Role}
    (hd : (net.loc r).Drained) :
    (net.loc r).sq.length = (net.host r).sdone ∧ (net.loc r).rq.length = (net.host r).rdone := by
  obtain ⟨hscq, hsdone⟩ := h.scq_signaled hb r
  have hpolled := (h.spolled r).length_le
  have hrpolled := h.rWcs_le r
  have hrdone := h.rdone_le r
  have hpre := h.done_sq r
  have hle := hpre.length_le
  constructor
  · rw [hsdone]
    by_contra hne
    have hlt : ((net.done r).map (·.wr)).length < (net.loc r).sq.length := by omega
    have hlast := List.getElem?_eq_getElem (show (net.loc r).sq.length - 1 < (net.loc r).sq.length by omega)
    have hfewer := signaled_lt hpre hlast (hd.last _ hlast) hlt
    rw [hd.sends, hscq, Local.signaled] at hpolled
    omega
  · rw [hd.recvs] at hrpolled
    omega

/-! ## Requests -/

/-- What is queued can be resolved. -/
theorem Standing.liveSpot_send (h : net.Standing) {r : Role} {k : Nat} {wr : SendWr}
    {x : Nat × Nat} (hk : (net.host r).sdone ≤ k) (hwr : (net.loc r).sq[k]? = some wr)
    (hx : (net.loc r).spot wr.mr wr.addr wr.len = some x) :
    (net.loc r).liveSpot wr.mr wr.addr wr.len = some x := by
  obtain ⟨mr, hmr, hlive⟩ := h.sends r k wr hk hwr
  rw [Local.liveSpot, if_neg, hx]
  rintro ⟨m, hm, hdead⟩
  rw [hmr] at hm
  cases hm
  exact hlive hdead

theorem Standing.liveSpot_recv (h : net.Standing) {r : Role} {k : Nat} {recv : RecvWr}
    {x : Nat × Nat} (hk : (net.host r).rdone ≤ k) (hrecv : (net.loc r).rq[k]? = some recv)
    (hx : (net.loc r).spot recv.mr recv.addr recv.len = some x) :
    (net.loc r).liveSpot recv.mr recv.addr recv.len = some x := by
  obtain ⟨mr, hmr, hlive⟩ := h.recvs r k recv hk hrecv
  rw [Local.liveSpot, if_neg, hx]
  rintro ⟨m, hm, hdead⟩
  rw [hmr] at hm
  cases hm
  exact hlive hdead

/-- The request at the head of a queue is carried out, or is a message that waits for its receive. -/
def Delivers (net : Net) (r : Role) (wr : SendWr) : Prop :=
  (∃ t, net.effect r wr = some (.carry t)) ∨
    net.effect r wr = none ∧ (net.loc r.peer).rq.length ≤ (net.host r.peer).rdone

/-- **A message** is delivered if there is a receive for it, and waits otherwise. -/
theorem Standing.effect_message (h : net.Standing) {r : Role} {wr : SendWr} {x : Nat × Nat}
    (hwr : (net.loc r).sq[(net.host r).sdone]? = some wr) (hverb : wr.verb = .Send)
    (hx : (net.loc r).spot wr.mr wr.addr wr.len = some x)
    (hrecv : ∀ recv, (net.loc r.peer).rq[(net.host r.peer).rdone]? = some recv →
      wr.len ≤ recv.len ∧ ∃ y, (net.loc r.peer).spot recv.mr recv.addr recv.len = some y) :
    net.Delivers r wr := by
  have hlive := h.liveSpot_send (Nat.le_refl _) hwr hx
  cases hrq : (net.loc r.peer).rq[(net.host r.peer).rdone]? with
  | none =>
    right
    refine ⟨by simp only [effect, hverb, hlive, hrq, Option.map_none], ?_⟩
    exact List.getElem?_eq_none_iff.1 hrq
  | some recv =>
    left
    obtain ⟨hle, y, hy⟩ := hrecv recv hrq
    have hlive' := h.liveSpot_recv (Nat.le_refl _) hrq hy
    simp only [effect, hverb, hlive, hrq, Option.map_some, if_neg (Nat.not_lt.2 hle), hlive']
    exact ⟨_, rfl⟩

/-- So long as no request is rejected, the connection stands, and more and more has been carried out. -/
theorem Standing.tick (h : net.Standing) (hrc : net.Rc)
    (hheads : ∀ r wr, (net.loc r).sq[(net.host r).sdone]? = some wr → net.Delivers r wr) {t : Tick}
    (hl : NothingFails (.tick t) net') (ht : Net.tick t net = some net') :
    net'.Standing ∧ ∀ r, (net.done r).length ≤ (net'.done r).length := by
  cases tick_cases ht with
  | @exec s lost wr e _ hwr he =>
    obtain rfl : lost = false := hl
    rcases hheads s wr hwr with ⟨t, hc⟩ | ⟨hn, -⟩
    · rw [hc] at he
      cases he
      obtain ⟨-, rfl, rfl, -⟩ := effect_carry hrc.sound hc
      refine ⟨h.carry, fun r => ?_⟩
      have hdone : net.done r <+: (net.apply t.src t.wr false (.carry t)).done r :=
        (later_apply net t.src t.wr false (.carry t)).transfers.filter _
      exact hdone.length_le
    · rw [hn] at he
      cases he
  | flushSend _ _ => exact hl.elim
  | flushRecv _ _ => exact hl.elim
  | fault => exact hl.elim

/-- Waiting for a completion of the send queue that is not there yet. -/
def AwaitsSend (net : Net) (r : Role) : Prop :=
  (net.loc r).sWcs.length < (net.loc r).signaled ∧ (net.host r).scq.length ≤ (net.loc r).sWcs.length

end Net

/-- A request that can be carried out. -/
theorem canStep_carry {α : Type} {c : Conf rc α} (hb : Net.broken c.st = false) {r : Role}
    {wr : SendWr} {t : Transfer} (hwr : (Net.loc c.st r).sq[(Net.host c.st r).sdone]? = some wr)
    (he : Net.effect c.st r wr = some (.carry t)) : c.CanStep NothingFails := by
  have htick : rc.tick (.exec r false) c.st = some (Net.apply c.st r wr false (.carry t)) := by
    show Net.exec c.st r false = _
    simp only [Net.exec, hb, Bool.false_eq_true, if_false, hwr, Option.bind_some, he,
      Option.map_some]
  exact Conf.canStep_tick htick rfl

/-- A process whose calls are served has returned, can go on, or waits for a completion. -/
theorem step_or_awaits {α : Type} {c : Conf rc α} {r : Role} {mon : Monitor Verbs Local}
    {ok : Local → VOp → Prop} {Q : α → Local → Prop} (hrc : Net.Rc c.st) (hspins : ¬ mon.spins)
    (hserved : ∀ l op, ok l op → l.Served op)
    (hsend : ∀ l num, ok l (.pollSend num) → l.sWcs.length < l.signaled)
    (hrecv : ∀ l, ok l .pollRecv → l.rWcs.length < l.rq.length)
    (hstore : ∀ p bytes, ok (Net.loc c.st r) (.store p bytes) → Net.transfers c.st = [])
    (hsafe : Safe mon ok (c.prog r) (Net.loc c.st r) Q) :
    (∃ a, c.prog r = .ret a ∧ Q a (Net.loc c.st r)) ∨ c.CanStep NothingFails ∨
      Net.AwaitsSend c.st r ∨ Net.WaitsRecv c.st r := by
  cases hp : c.prog r with
  | ret a =>
    rw [hp] at hsafe
    exact .inl ⟨a, rfl, hsafe⟩
  | spin =>
    rw [hp] at hsafe
    exact absurd hsafe hspins
  | call op k =>
    rw [hp] at hsafe
    have hok := hsafe.1
    by_cases hwaits : Net.AwaitsSend c.st r
    · exact .inr (.inr (.inl hwaits))
    by_cases hwaitr : Net.WaitsRecv c.st r
    · exact .inr (.inr (.inr hwaitr))
    obtain ⟨hint, hfail, hans⟩ := Net.answer_served (hserved _ _ hok)
      (fun num he => by
        subst he
        have hlt := hsend _ _ hok
        by_contra hle
        exact hwaits ⟨hlt, by omega⟩)
      (fun he => by
        subst he
        have hlt := hrecv _ hok
        rw [hrc.rcq_len]
        by_contra hle
        exact hwaitr ⟨hlt, by omega⟩)
      (fun p bytes he => by
        subst he
        exact hstore p bytes hok)
    exact .inr (.inl (canStep_of_answer hp hfail hans))

/-! ## Deadlock -/

/-- A process that cannot go on has returned, or waits for one of the two queues; and what is queued
waits for a receive. -/
structure Stuck {α : Type} (Q : Role → α → Local → Prop) (c : Conf rc α) : Prop where
  waits : ∀ r, (∃ a, c.prog r = .ret a ∧ Q r a (Net.loc c.st r)) ∨
    Net.AwaitsSend c.st r ∨ Net.WaitsRecv c.st r
  heads : ∀ r, (Net.host c.st r).sdone < (Net.loc c.st r).sq.length →
    (Net.loc c.st r.peer).rq.length ≤ (Net.host c.st r.peer).rdone

theorem stuck_of_not_canStep {α : Type} {c : Conf rc α} {mon : Role → Monitor Verbs Local}
    {ok : Role → Local → VOp → Prop} {Q : Role → α → Local → Prop} (hrc : Net.Rc c.st)
    (hb : Net.broken c.st = false) (hspins : ∀ r, ¬ (mon r).spins)
    (hserved : ∀ r l op, ok r l op → l.Served op)
    (hsend : ∀ r l num, ok r l (.pollSend num) → l.sWcs.length < l.signaled)
    (hrecv : ∀ r l, ok r l .pollRecv → l.rWcs.length < l.rq.length)
    (hstore : ∀ r p bytes, ok r (Net.loc c.st r) (.store p bytes) → Net.transfers c.st = [])
    (hsafe : ∀ r, Safe (mon r) (ok r) (c.prog r) (Net.loc c.st r) (Q r))
    (hheads : ∀ r wr, (Net.loc c.st r).sq[(Net.host c.st r).sdone]? = some wr → Net.Delivers c.st r wr)
    (hno : ¬ c.CanStep NothingFails) : Stuck Q c := by
  constructor
  · intro r
    rcases step_or_awaits hrc (hspins r) (hserved r) (hsend r) (hrecv r) (hstore r) (hsafe r) with
      hret | hstep | hwait | hwait
    · exact .inl hret
    · exact absurd hstep hno
    · exact .inr (.inl hwait)
    · exact .inr (.inr hwait)
  · intro r hlt
    have hwr := List.getElem?_eq_getElem hlt
    rcases hheads r _ hwr with ⟨t, he⟩ | ⟨-, hle⟩
    · exact absurd (canStep_carry hb hwr he) hno
    · exact hle

/-- How a process stands that cannot go on. -/
theorem Stuck.counts {α : Type} {c : Conf rc α} {Q : Role → α → Local → Prop} (hs : Stuck Q c)
    (hdrained : ∀ r a l, Q r a l → l.Drained) (hrc : Net.Rc c.st) (hb : Net.broken c.st = false)
    (r : Role) :
    (∃ a, c.prog r = .ret a ∧ Q r a (Net.loc c.st r) ∧
      (Net.loc c.st r).sq.length = (Net.host c.st r).sdone ∧
      (Net.loc c.st r).rq.length = (Net.host c.st r).rdone) ∨
    (Net.host c.st r).sdone < (Net.loc c.st r).sq.length ∨
    (Net.host c.st r).rdone < (Net.loc c.st r).rq.length := by
  rcases hs.waits r with ⟨a, hret, hdone⟩ | ⟨hlt, hle⟩ | ⟨hlt, hle⟩
  · exact .inl ⟨a, hret, hdone, hrc.settled hb (hdrained r a _ hdone)⟩
  · exact .inr (.inl (hrc.pending hb (Nat.lt_of_le_of_lt hle hlt)))
  · exact .inr (.inr (Nat.lt_of_le_of_lt hle hlt))

/-! ## Termination -/

instance : Fintype Role where
  elems := {.client, .server}
  complete r := by cases r <;> decide

/-- The requests not yet carried out. -/
def Net.outstanding (net : Net) : Nat :=
  ∑ r : Role, ((net.loc r).sq.length - (net.host r).sdone)

theorem Net.outstanding_eq (net : Net) (r : Role) :
    net.outstanding = ((net.loc r).sq.length - (net.host r).sdone) +
      ((net.loc r.peer).sq.length - (net.host r.peer).sdone) := by
  have hsum : net.outstanding = ((net.loc .client).sq.length - (net.host .client).sdone) +
      ((net.loc .server).sq.length - (net.host .server).sdone) :=
    Finset.sum_pair (by decide)
  rw [hsum]
  cases r with
  | client => rfl
  | server => exact Nat.add_comm _ _

/-- Each step of the network carries one out. -/
theorem Net.outstanding_tick {net net' : Net} {t : Tick} (hl : NothingFails (.tick t) net')
    (ht : Net.tick t net = some net') : net'.outstanding < net.outstanding := by
  have hloc := fun q => Net.tick_loc ht q
  cases Net.tick_cases ht with
  | @exec s lost wr e _ hwr he =>
    have hlt := (List.getElem?_eq_some_iff.1 hwr).1
    have hs : ((net.apply s wr lost e).host s).sdone = (net.host s).sdone + 1 := by
      cases e <;> simp [apply, Host.finish]
    have hp : ((net.apply s wr lost e).host s.peer).sdone = (net.host s.peer).sdone := by
      cases e with
      | carry t =>
        simp only [apply, pair_peer]
        split <;> rfl
      | reject => simp [apply]
      | rejectBoth => simp [apply, Host.take]
    rw [Net.outstanding_eq _ s, Net.outstanding_eq net s, hs, hp, hloc, hloc]
    omega
  | flushSend _ _ => exact hl.elim
  | flushRecv _ _ => exact hl.elim
  | fault => exact hl.elim

/-- **Termination**: while nothing fails, no two programs run for ever. -/
theorem nothingFails_terminates {α : Type} {c₀ c : Conf rc α}
    (hc : Reachable NothingFails c₀ c) : Acc (Conf.Step NothingFails) c :=
  Reachable.terminates_of_allowed (fun _ _ _ _ hl ht => Net.outstanding_tick hl ht) hc

end RdmaOpera
