import Mathlib.Algebra.Order.BigOperators.Group.Finset
import RdmaOpera.Lib.Termination
import RdmaOpera.MpiFlow

/-!
# No run gets stuck, and none goes on for ever

In every direction, with any number of ranks. A rank can wait for a slower rank at the barrier, for
a block, or for a digest; the rank with the fewest barriers behind it waits for nothing that has not
been sent (`Standstill.not_blocked`). Whoever frees its buffer has received everything; what MPI has
still to read out of it then is any bytes, but it is read.
-/

namespace RdmaOpera.MpiExec

open Lib Prog

/-! ## Runs are finite -/

/-- What MPI has left to do for one ordered pair. -/
def backlog (w : World) (s d : Nat) : Nat :=
  (((w.loc s).sends d).length - (w.pairs (s, d)).length) +
    ((Finset.range ((w.loc s).sends d).length).filter fun k => w.read (s, d, k) = none).card +
    ((Finset.range ((w.loc d).recvs s).length).filter fun k => w.got (s, d, k) = none).card

theorem card_filter_update {f : Nat × Nat × Nat → Option (List UInt8)} {s d k n : Nat}
    {bytes : List UInt8} (hk : k < n) (hf : f (s, d, k) = none) :
    ((Finset.range n).filter fun i => Function.update f (s, d, k) (some bytes) (s, d, i) = none).card <
      ((Finset.range n).filter fun i => f (s, d, i) = none).card := by
  refine Finset.card_lt_card (Finset.ssubset_iff_of_subset ?_ |>.2 ⟨k, ?_, ?_⟩)
  · intro i hi
    simp only [Finset.mem_filter] at hi ⊢
    refine ⟨hi.1, ?_⟩
    have hne : (s, d, i) ≠ (s, d, k) := by
      rintro heq
      cases heq
      rw [Function.update_self] at hi
      cases hi.2
    rw [Function.update_of_ne hne] at hi
    exact hi.2
  · simp [hk, hf]
  · simp

theorem filter_update_ne {f : Nat × Nat × Nat → Option (List UInt8)} {s d k n s' d' : Nat}
    {bytes : List UInt8} (hne : (s', d') ≠ (s, d)) :
    ((Finset.range n).filter fun i => Function.update f (s, d, k) (some bytes) (s', d', i) = none) =
      (Finset.range n).filter fun i => f (s', d', i) = none := by
  refine Finset.filter_congr fun i _ => ?_
  have hne' : (s', d', i) ≠ (s, d, k) := by
    rintro heq
    cases heq
    exact hne rfl
  rw [Function.update_of_ne hne']

theorem lt_of_planned {params : DccsParameters} {size s d : Nat} {place : Place}
    (h : place ∈ planned params size s d) : d < size := by
  rcases List.mem_append.1 h with h | h
  · split at h
    · rename_i hsd
      exact hsd.2.2
    · cases h
  · split at h
    · rename_i hsd
      omega
    · cases h

/-- Every step of MPI works off the backlog of one pair. -/
theorem backlog_tick {params : DccsParameters} {size : Nat} {w w' : World}
    (h : Aligned params size w) {t : Tick} (ht : w.tick t = some w') :
    ∃ s < size, ∃ d < size, backlog w' s d < backlog w s d ∧ ∀ s' d', (s', d') ≠ (s, d) →
      backlog w' s' d' = backlog w s' d' := by
  have hs : ∀ {s d k : Nat}, k < ((w.loc s).sends d).length → s < size := by
    intro s d k hk
    by_contra hge
    rw [h.idle s (by omega)] at hk
    exact absurd hk (Nat.not_lt_zero k)
  have hd : ∀ {s d k : Nat}, k < ((w.loc s).sends d).length → d < size := by
    intro s d k hk
    exact lt_of_planned (((h.onPlan s (hs hk)).sends d).subset (List.getElem_mem hk))
  cases World.tick_cases ht with
  | @pair s d pairs hpairs =>
    obtain ⟨n, -, -, hn⟩ := h.pairs s d
    rw [hn, matchNext_inStep] at hpairs
    split at hpairs
    · rename_i hlt
      cases hpairs
      refine ⟨s, hs hlt.1, d, hd hlt.1, ?_, fun s' d' hne => ?_⟩
      · simp only [backlog, Function.update_self, length_inStep, hn]
        omega
      · simp only [backlog, Function.update_of_ne hne]
    · cases hpairs
  | @read s d k seen b hplace hread =>
    have hlt := (List.getElem?_eq_some_iff.1 hplace).1
    refine ⟨s, hs hlt, d, hd hlt, ?_, fun s' d' hne => ?_⟩
    · have hless := @card_filter_update _ s d k _ (bytesAt (w.visible s seen) b) hlt hread
      simp only [backlog]
      omega
    · simp only [backlog, filter_update_ne hne]
  | @deliver s d k x bytes place hx hread hgot hplace _ _ =>
    obtain ⟨rfl, _, hsent, hposted⟩ := h.inStep s d k x hx
    have hlt := (List.getElem?_eq_some_iff.1 hsent).1
    have hless := @card_filter_update _ s d k _ bytes (List.getElem?_eq_some_iff.1 hposted).1 hgot
    obtain ⟨hloc, hpairs, hread', hgot'⟩ := World.arrive_eq w s d k bytes place
    refine ⟨s, hs hlt, d, hd hlt, ?_, fun s' d' hne => ?_⟩
    · simp only [backlog, hloc, hpairs, hread', hgot']
      omega
    · simp only [backlog, hloc, hpairs, hread', hgot', filter_update_ne hne]

/-- Ranks that keep to the plan come to an end: MPI has only so much to do between two calls. -/
theorem terminates_of_aligned {α : Type} {params : DccsParameters} {size : Nat}
    {c₀ c : Conf (mpi size) α}
    (haligned : ∀ c, Reachable AnyMpiStep c₀ c → Aligned params size c.st)
    (hc : Reachable AnyMpiStep c₀ c) : Acc (Conf.Step AnyMpiStep) c := by
  refine Reachable.terminates (μ := fun w : World => ∑ s ∈ Finset.range size,
    ∑ d ∈ Finset.range size, backlog w s d)
    (fun c' t w' hc' ht => ?_) hc
  obtain ⟨s, hs, d, hd, hless, hothers⟩ := backlog_tick (haligned c' hc') ht
  have hle : ∀ s' d', backlog w' s' d' ≤ backlog c'.st s' d' := by
    intro s' d'
    by_cases heq : (s', d') = (s, d)
    · cases heq
      exact hless.le
    · exact (hothers s' d' heq).le
  refine Finset.sum_lt_sum (fun s' _ => Finset.sum_le_sum fun d' _ => hle s' d') ⟨s, Finset.mem_range.2 hs, ?_⟩
  exact Finset.sum_lt_sum (fun d' _ => hle s d') ⟨d, Finset.mem_range.2 hd, hless⟩

section flow
variable {params : DccsParameters} {size : Nat} {w : World} {r : Nat}

/-! ## Who waits for what -/

namespace Flow

/-- What rank `r` can be waiting for. -/
inductive Blocked (params : DccsParameters) (size : Nat) (w : World) (r : Nat) : Prop where
  | barrier (q : Nat) : q < size → (w.loc q).barriers < (w.loc r).barriers → Blocked params size w r
  | message (s k : Nat) : Waits params size r (w.loc r) → talks params.direction s r → s < size →
    k < ((w.loc r).recvs s).length → k < (w.loc r).barriers * params.count →
      w.got (s, r, k) = none → Blocked params size w r
  | digest (s : Nat) : r = 0 → Passed params size r (w.loc r) → Collects params size s (w.loc r) →
    w.got (s, r, digestAt params s) = none → Blocked params size w r

/-- What has been sent by then. -/
theorem Blocked.sent (h : Blocked params size w r) (hle : (w.loc r).barriers ≤ params.repeat_)
    (hmin : ∀ q < size, (w.loc r).barriers ≤ (w.loc q).barriers) {d : Nat}
    (hd : talks params.direction r d) (hsize : d < size) :
    (w.loc r).barriers * params.count ≤ ((w.loc r).sends d).length := by
  cases h with
  | barrier q hq hlt => exact absurd (hmin q hq) (Nat.not_le_of_lt hlt)
  | message s k hwaits => exact hwaits.sent d hd hsize
  | digest s h0 hpassed => exact (Nat.mul_le_mul_right _ hle).trans (hpassed.sends d hd hsize)

theorem answer_or_blocked (hlength : 0 ≤ cInt params.length) (hcounts : Countable params size)
    (hr : r < size) {op : MOp} (hok : Orderly True params size r (w.loc r) op) :
    (∃ a, w.answer size {} r op = some a) ∨ Blocked params size w r := by
  cases op with
  | barrierLeave =>
    by_cases hall : ∀ q < size, (w.loc r).barriers ≤ (w.loc q).barriers
    · exact .inl ⟨(), if_pos hall⟩
    · simp only [not_forall, Nat.not_le] at hall
      obtain ⟨q, hq, hlt⟩ := hall
      exact .inr (.barrier q hq hlt)
  | isend offset length dest request =>
    obtain ⟨rfl, hrequest⟩ := hok
    exact .inl ⟨(), if_pos ⟨hlength, hrequest.nonneg hcounts⟩⟩
  | irecv offset length src request =>
    obtain ⟨rfl, hrequest⟩ := hok
    exact .inl ⟨(), if_pos ⟨hlength, hrequest.nonneg hcounts⟩⟩
  | testall totalCount =>
    obtain ⟨rfl, hrecv, hwaits⟩ := hok
    rw [cInt_of_lt (hcounts.receives hr hrecv)]
    by_cases htest : w.tested r (receiveCount params size r)
    · exact .inl ⟨(), if_pos ⟨Int.natCast_nonneg _, by rwa [Int.toNat_natCast]⟩⟩
    · simp only [World.tested, not_forall] at htest
      obtain ⟨i, hi, hno⟩ := htest
      obtain ⟨s, k, hreq, hs, hsize, hposted, hround⟩ := hwaits.posted i hi
      refine .inr (.message s k hwaits hs hsize hposted hround ?_)
      rw [hreq] at hno
      simpa using hno
  | recvWait =>
    obtain ⟨h0, hpassed, s, hcollects⟩ := hok
    cases hgot : w.got (s, r, digestAt params s) with
    | none => exact .inr (.digest s h0 hpassed hcollects hgot)
    | some bytes =>
      refine .inl ⟨bytes, ?_⟩
      show (w.loc r).waiting.bind (fun x => w.got (x.1, r, x.2)) = some bytes
      rw [hcollects.waiting]
      exact hgot
  | mallocRandom size' => exact .inl ⟨_, rfl⟩
  | load length => exact .inl ⟨_, rfl⟩
  | getCycles => exact .inl ⟨_, rfl⟩
  | _ => exact .inl ⟨(), rfl⟩

/-- A message that has been sent to a posted receive is on its way. -/
theorem tick_possible (h : Flow params size w) {s d k : Nat}
    (husable : ∀ place, ((w.loc d).recvs s)[k]? = some place → w.usable d place = true)
    (hsent : k < ((w.loc s).sends d).length) (hposted : k < ((w.loc d).recvs s).length)
    (hgot : w.got (s, d, k) = none) : ∃ t w', w.tick t = some w' := by
  obtain ⟨n, hn, hn', hpairs⟩ := h.aligned.pairs s d
  by_cases hpaired : k < n
  · have hpair : (w.pairs (s, d))[k]? = some (k, k) := by
      rw [hpairs, getElem?_inStep, if_pos hpaired]
    obtain ⟨-, place, hplace, hplace'⟩ := h.aligned.inStep s d k _ hpair
    cases hread : w.read (s, d, k) with
    | none =>
      cases place with
      | block b =>
        refine ⟨.read s d k,
          { w with read := Function.update w.read (s, d, k) (some (bytesAt (w.visible s fun _ => 0) b)) }, ?_⟩
        simp only [World.tick, hplace, hread]
      | array m =>
        have hread' := h.arrays s d k m hplace
        rw [hread] at hread'
        cases hread'
    | some bytes =>
      obtain ⟨place', hsame, hlen⟩ := h.read s d k bytes hread
      obtain rfl := Option.some.inj (hplace.symm.trans hsame)
      refine ⟨.deliver s d k, w.arrive s d k bytes place, ?_⟩
      simp only [World.tick, hpair, Option.bind_some, hread, hgot, hplace']
      rw [if_pos ⟨hlen.le, husable place hplace'⟩]
  · have hlt : n < ((w.loc s).sends d).length ∧ n < ((w.loc d).recvs s).length :=
      ⟨by omega, by omega⟩
    refine ⟨.pair s d, { w with pairs := Function.update w.pairs (s, d) (inStep (n + 1)) }, ?_⟩
    simp only [World.tick, hpairs, matchNext_inStep, if_pos hlt, Option.map_some]

end Flow

/-! ## All ranks -/

/-- Whose buffer is freed: who has freed it, and who had before. -/
theorem freed_called {hint : Hint} {op : MOp} {a : MOp.Ans op} {q : Nat}
    (hq : (w.called hint r op a).freed q = true) : w.freed q = true ∨ q = r ∧ op = .free := by
  cases op with
  | free =>
    have hq : Function.update w.freed r true q = true := hq
    by_cases heq : q = r
    · exact .inr ⟨heq, rfl⟩
    · rw [Function.update_of_ne heq] at hq
      exact .inl hq
  | mallocRandom n =>
    left
    cases hf : hint.fresh with
    | none => simpa [World.called, World.effect, hf] using hq
    | some bytes =>
      have hq : Function.update w.freed r false q = true := by
        simpa [World.called, World.effect, hf] using hq
      by_cases heq : q = r
      · rw [heq, Function.update_self] at hq
        cases hq
      · rwa [Function.update_of_ne heq] at hq
  | _ => exact .inl hq

theorem tick_freed {w' : World} {t : Tick} (ht : w.tick t = some w') : w'.freed = w.freed := by
  cases World.tick_cases ht with
  | pair _ => rfl
  | read _ _ => rfl
  | @deliver s d k x bytes place _ _ _ _ _ _ => cases place <;> rfl

/-- The blocks come first. -/
theorem planned_block_lt {s d k : Nat} {b : Range}
    (h : (planned params size s d)[k]? = some (.block b)) :
    talks params.direction s d ∧ s < size ∧ k < params.repeat_ * params.count := by
  rw [planned] at h
  by_cases htalks : talks params.direction s d ∧ s < size ∧ d < size
  · rw [if_pos htalks, List.getElem?_append, length_rounds] at h
    split at h
    · rename_i hk
      exact ⟨htalks.1, htalks.2.1, hk⟩
    · have hmem := List.mem_of_getElem? h
      split at hmem
      · cases List.mem_singleton.1 hmem
      · cases hmem
  · rw [if_neg htalks, List.nil_append] at h
    have hmem := List.mem_of_getElem? h
    split at hmem
    · cases List.mem_singleton.1 hmem
    · cases hmem

/-- What holds in every state of a run. -/
structure Underway (params : DccsParameters) (size : Nat) (w : World) : Prop where
  flow : Flow params size w
  inRound : ∀ r < size, InRound params size r (w.loc r)
  freed : ∀ r, w.freed r = true → Passed params size r (w.loc r)

namespace Underway

theorem start (params : DccsParameters) (size : Nat) (mem : Nat → Nat → UInt8) :
    Underway params size { mem } where
  flow := .start params size mem
  inRound r _ := inRound_nil params size r
  freed _ h := nomatch h

theorem called {hint : Hint} {op : MOp} {a : MOp.Ans op} (h : Underway params size w) (hr : r < size)
    (ha : w.answer size hint r op = some a) (hok : Orderly True params size r (w.loc r) op)
    (hplan : OnPlan params size r ((w.loc r).upd op a)) :
    Underway params size (w.called hint r op a) := by
  refine ⟨h.flow.called hr ha hplan, fun q hq => ?_, fun q hq => ?_⟩
  · rw [World.called_loc]
    split
    · rename_i heq
      subst heq
      exact (h.inRound q hq).upd hok a
    · exact h.inRound q hq
  · rcases freed_called hq with hold | ⟨rfl, rfl⟩
    · have hpassed := h.freed q hold
      rw [World.called_loc]
      split
      · rename_i heq
        subst heq
        refine hpassed.upd op a ?_
        cases op with
        | barrierEnter => exact absurd hpassed.barriers (Nat.ne_of_lt hok.1)
        | _ => rfl
      · exact hpassed
    · rw [World.called_loc, if_pos rfl]
      exact hok.2

theorem tick {w' : World} {t : Tick} (h : Underway params size w) (ht : w.tick t = some w') :
    Underway params size w' := by
  refine ⟨h.flow.tick ht, fun r hr => ?_, fun r hr => ?_⟩
  · rw [World.tick_loc ht]
    exact h.inRound r hr
  · rw [tick_freed ht] at hr
    rw [World.tick_loc ht]
    exact h.freed r hr

/-- Nothing is left to arrive in a freed buffer. -/
theorem usable (h : Underway params size w) {s d k : Nat} (hd : d < size)
    (hgot : w.got (s, d, k) = none) (place : Place)
    (hposted : ((w.loc d).recvs s)[k]? = some place) : w.usable d place = true := by
  cases place with
  | array n => rfl
  | block b =>
    by_contra hfreed
    have hpassed := h.freed d (by simpa [World.usable] using hfreed)
    have hplan := getElem?_mono ((h.flow.aligned.onPlan d hd).recvs s) hposted
    obtain ⟨htalks, hs, hk⟩ := planned_block_lt hplan
    have hsome := h.flow.complete s d k (hpassed.complete s htalks hs k hk)
    rw [hgot] at hsome
    cases hsome

end Underway

/-- **The invariant** of a run whose ranks are orderly and keep to the plan. -/
theorem underway_of_safe {allow : Label (mpi size) → World → Prop} {m : Monitor Mpi Local}
    {Q : Fin size → Int → Local → Prop} {prog : Fin size → MProg Int} {mem : Nat → Nat → UInt8}
    {c : Conf (mpi size) Int} (hupd : m.upd = Local.upd)
    (hadm : ∀ (rank : Fin size) (hint : Hint) op a (w : World), allow (.call rank hint) (w.called hint rank op a) →
      w.answer size hint rank op = some a → m.adm (w.loc rank) op a)
    (hsafe : ∀ rank : Fin size, Safe m (fun l op => Orderly True params size rank l op ∧
      ∀ a, OnPlan params size rank (l.upd op a)) (prog rank) {} (Q rank))
    (hc : Reachable allow (launch mem prog) c) :
    Underway params size c.st ∧ ∀ rank : Fin size,
      Safe m (Orderly True params size rank) (c.prog rank) (World.loc c.st rank) (Q rank) := by
  have hinv := mpi_invariant (I := Underway params size) hupd ?_ (fun t w w' _ h ht => h.tick ht)
    (.start _ size mem) hsafe hc
  · exact ⟨hinv.1, fun rank => (hinv.2 rank).relax rfl (fun _ _ _ h => h) id fun _ _ h => h.1⟩
  · intro rank hint op a w hallow h hok ha
    exact ⟨hadm rank hint op a w hallow ha, h.called rank.isLt ha hok.1 (hok.2 a)⟩

/-! ## Nobody waits for ever -/

/-- Nobody can move: who has not returned waits, and all that was sent to a posted receive is there. -/
structure Standstill (params : DccsParameters) (size : Nat) (c : Conf (mpi size) Int) : Prop where
  underway : Underway params size c.st
  halted : ∀ r : Fin size,
    (∃ rv, c.prog r = .ret rv ∧ Finished params size r (World.loc c.st r)) ∨
      Flow.Blocked params size c.st r
  arrived : ∀ s d k, d < size → k < ((World.loc c.st s).sends d).length →
    k < ((World.loc c.st d).recvs s).length → World.got c.st (s, d, k) ≠ none

namespace Standstill

variable {c : Conf (mpi size) Int} (h : Standstill params size c)
include h

/-- Everybody has sent the blocks of all the rounds that all ranks have entered. -/
theorem sent {b : Nat} (hb : b ≤ params.repeat_)
    (hmin : ∀ q < size, b ≤ (World.loc c.st q).barriers) {s d : Nat} (hs : s < size)
    (htalks : talks params.direction s d) (hd : d < size) :
    b * params.count ≤ ((World.loc c.st s).sends d).length := by
  have hround := h.underway.inRound s hs
  rcases Nat.lt_or_ge b (World.loc c.st s).barriers with hlt | hge
  · exact (Nat.mul_le_mul_right _ (by omega)).trans (hround.ahead d htalks hd)
  · have heq : (World.loc c.st s).barriers = b := Nat.le_antisymm hge (hmin s hs)
    rcases h.halted ⟨s, hs⟩ with ⟨rv, -, hfinished⟩ | hblocked
    · exact (Nat.mul_le_mul_right _ hb).trans (hfinished.passed.sends d htalks hd)
    · have hsent := hblocked.sent hround.barriers (heq ▸ hmin) htalks hd
      rwa [heq] at hsent

/-- The rank with the fewest barriers behind it waits for nothing. -/
theorem not_blocked {r : Fin size}
    (hmin : ∀ q < size, (World.loc c.st r).barriers ≤ (World.loc c.st q).barriers) :
    ¬ Flow.Blocked params size c.st r := by
  have hle := (h.underway.inRound r r.isLt).barriers
  intro hblocked
  cases hblocked with
  | barrier q hq hlt => exact absurd (hmin q hq) (Nat.not_le_of_lt hlt)
  | message s k _ htalks hs hposted hround hgot =>
    exact h.arrived s r k r.isLt (Nat.lt_of_lt_of_le hround (h.sent hle hmin hs htalks r.isLt))
      hposted hgot
  | digest s h0 hpassed hcollects hgot =>
    have hrepeat := hpassed.barriers
    have hles := (h.underway.inRound s hcollects.lt).barriers
    rcases h.halted ⟨s, hcollects.lt⟩ with ⟨rv, -, hfinished⟩ | hblocked
    · have hsent := hfinished.sent (Nat.ne_of_gt hcollects.pos)
      exact h.arrived s r _ r.isLt (h0 ▸ hsent) hcollects.posted hgot
    -- whoever has not sent its digest yet waits for a block, and that has been sent
    · cases hblocked with
      | barrier q hq hlt =>
        have hq' := hmin q hq
        simp only at hlt
        omega
      | message s' k _ htalks hs' hposted hround hgot' =>
        refine h.arrived s' s k hcollects.lt (Nat.lt_of_lt_of_le hround ?_) hposted hgot'
        exact (Nat.mul_le_mul_right _ (hles.trans hrepeat.ge)).trans
          (h.sent hle hmin hs' htalks hcollects.lt)
      | digest s' h0' => exact absurd h0' (Nat.ne_of_gt hcollects.pos)

/-- By the number of barriers behind a rank: nobody is behind the next one that has not returned. -/
theorem returned (r : Fin size) :
    ∃ rv, c.prog r = .ret rv ∧ Finished params size r (World.loc c.st r) := by
  induction hb : (World.loc c.st r).barriers using Nat.strong_induction_on generalizing r with
  | _ b ih =>
    have hle := (h.underway.inRound r r.isLt).barriers
    refine (h.halted r).resolve_right (h.not_blocked fun q hq => ?_)
    by_contra hlt
    obtain ⟨rv, -, hfinished⟩ := ih _ (hb ▸ Nat.lt_of_not_le hlt) ⟨q, hq⟩ rfl
    have hbarriers := hfinished.passed.barriers
    simp only at hbarriers
    omega

end Standstill

section progress
variable {c : Conf (mpi size) Int} {allow : Label (mpi size) → World → Prop} {m : Monitor Mpi Local}

theorem Underway.standstill (h : Underway params size c.st)
    (hcall : ∀ (r : Fin size) w, allow (.call r ({} : Hint)) w) (htick : ∀ t w, allow (.tick t) w)
    (hlength : 0 ≤ cInt params.length) (hcounts : Countable params size) (hspins : ¬ m.spins)
    (hsafe : ∀ r : Fin size, Safe m (Orderly True params size r) (c.prog r) (World.loc c.st r)
      fun _ l => Finished params size r l)
    (hno : ¬ c.CanStep allow) : Standstill params size c where
  underway := h
  halted r := by
    have hr := hsafe r
    cases hp : c.prog r with
    | ret rv =>
      rw [hp] at hr
      exact .inl ⟨rv, rfl, hr⟩
    | call op k =>
      rw [hp] at hr
      rcases Flow.answer_or_blocked hlength hcounts r.isLt hr.1 with ⟨a, ha⟩ | hblocked
      · have hact : (mpi size).act ({} : Hint) r op c.st = some (a, World.called c.st {} r op a) := by
          show (World.answer c.st size {} r op).map _ = _
          rw [ha]
          rfl
        exact absurd (Conf.canStep_call hp hact (hcall r _)) hno
      · exact .inr hblocked
    | spin =>
      rw [hp] at hr
      exact absurd hr hspins
  arrived s d k hd hsent hposted hgot := by
    obtain ⟨t, w', ht⟩ := h.flow.tick_possible (h.usable hd hgot) hsent hposted hgot
    exact hno (Conf.canStep_tick ht (htick t w'))

/-- **Progress**: as long as some rank has not returned, some step is possible. -/
theorem Underway.progress (h : Underway params size c.st)
    (hcall : ∀ (r : Fin size) w, allow (.call r ({} : Hint)) w) (htick : ∀ t w, allow (.tick t) w)
    (hlength : 0 ≤ cInt params.length) (hcounts : Countable params size) (hspins : ¬ m.spins)
    (hsafe : ∀ r : Fin size, Safe m (Orderly True params size r) (c.prog r) (World.loc c.st r)
      fun _ l => Finished params size r l)
    (hsome : ∃ r, ∀ rv, c.prog r ≠ .ret rv) : c.CanStep allow := by
  by_contra hno
  obtain ⟨r, hr⟩ := hsome
  obtain ⟨rv, hret, -⟩ :=
    (h.standstill hcall htick hlength hcounts hspins hsafe hno).returned r
  exact hr rv hret

end progress

/-! ## The rounds -/

theorem safe_exchange_underway (sha1sum : List UInt8 → Digest) {rank : Nat} (hrank : rank < size) :
    Safe (watching True fun _ _ => True)
      (fun l op => Orderly True params size rank l op ∧ ∀ a, OnPlan params size rank (l.upd op a))
      (exchange sha1sum size rank params) {}
      fun _ l => Finished params size rank l ∧ OnPlan params size rank l :=
  (safe_exchange_orderly sha1sum hrank).both
    ((safe_exchange_keeps sha1sum hrank).relax rfl (fun l op a _ => history_admits l op a) id
      fun _ _ h => h)

section exchange
variable {sha1sum : List UInt8 → Digest} {mem : Nat → Nat → UInt8} {c : Conf (mpi size) Int}

theorem exchange_underway
    (hc : Reachable AnyMpiStep (launch mem fun rank : Fin size => exchange sha1sum size rank params) c) :
    Underway params size c.st ∧ ∀ rank : Fin size,
      Safe (watching True fun _ _ => True) (Orderly True params size rank) (c.prog rank)
        (World.loc c.st rank) fun _ l => Finished params size rank l ∧ OnPlan params size rank l :=
  underway_of_safe rfl (fun _ _ _ _ _ _ ha => watching_admits ha)
    (fun rank => safe_exchange_underway sha1sum rank.isLt) hc

theorem exchange_progress (hlength : 0 ≤ cInt params.length) (hcounts : Countable params size)
    (hc : Reachable AnyMpiStep (launch mem fun rank : Fin size => exchange sha1sum size rank params) c)
    (hsome : ∃ r, ∀ rv, c.prog r ≠ .ret rv) : c.CanStep AnyMpiStep := by
  obtain ⟨hunder, hsafe⟩ := exchange_underway hc
  exact hunder.progress (fun _ _ => trivial) (fun _ _ => trivial) hlength hcounts
    (m := watching True fun _ _ => True) id (fun r => (hsafe r).mono fun _ _ h => h.1) hsome

/-- **Termination**: no run of the rounds goes on for ever. -/
theorem exchange_terminates
    (hc : Reachable AnyMpiStep (launch mem fun rank : Fin size => exchange sha1sum size rank params) c) :
    Acc (Conf.Step AnyMpiStep) c :=
  terminates_of_aligned (fun _ hc' => (exchange_underway hc').1.flow.aligned) hc

end exchange

end flow

end RdmaOpera.MpiExec
