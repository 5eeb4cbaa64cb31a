import RdmaOpera.MpiFlow

/-!
# One round at a time

Each round starts with a barrier, and a rank leaves the barrier only when all ranks have entered it.
So no two ranks are more than one barrier apart, and when the first block of a round is sent every
block of the rounds before it has arrived, everywhere: what `run` times is one round.
-/

namespace RdmaOpera.MpiExec

open Lib Prog

/-! ## In and out of the barrier -/

/-- The barriers a rank has entered, and those it has left. -/
def gate : Monitor Mpi (Nat × Nat) where
  upd s op _ := match op with
    | .barrierEnter => (s.1 + 1, s.2)
    | .barrierLeave => (s.1, s.2 + 1)
    | _ => s
  adm _ _ _ := True
  spins := True

/-- Nothing else is called inside a barrier. -/
def AtGate (s : Nat × Nat) : MOp → Prop
  | .barrierLeave => s.1 = s.2 + 1
  | _ => s.1 = s.2

/-- The calls between two barriers. -/
def Between : MOp → Prop
  | .barrierEnter | .barrierLeave => False
  | _ => True

section rank
variable {params : DccsParameters} {size rank : Nat} {sha1sum : List UInt8 → Digest}

theorem calls_postMessages {post : Nat → Int → Nat → Int → MProg Unit}
    (hpost : ∀ offset length host request, Calls Between (post offset length host request))
    (target : Int) (bytes : Nat) :
    Calls Between (postMessages post params target rank size bytes) := by
  refine calls_forN (fun n s => calls_forN (fun host s => ?_) _ _) _ _
  exact Calls.ite trivial ((hpost _ _ _ _).bind fun _ => trivial)

theorem calls_sendMessages (target : Int) (bytes : Nat) :
    Calls Between (sendMessages size rank params target bytes) := by
  refine Calls.ite ⟨trivial, fun _ => trivial⟩ ((calls_postMessages ?_ _ _).bind fun _ => trivial)
  intro offset length host request
  exact ⟨trivial, fun _ => ⟨trivial, fun _ => trivial⟩⟩

theorem calls_recvMessages (source : Int) (bytes : Nat) :
    Calls Between (recvMessages size rank params source bytes) := by
  refine Calls.ite ⟨trivial, fun _ => trivial⟩ ((calls_postMessages ?_ _ _).bind fun _ => ?_)
  · intro offset length host request
    exact ⟨trivial, fun _ => trivial⟩
  · exact ⟨trivial, fun _ => trivial⟩

theorem calls_verifyFrom_between (digest : Digest) :
    ∀ k src, Calls Between (verifyFrom digest k src)
  | 0, _ => trivial
  | k + 1, src => ⟨trivial, fun _ => ⟨trivial, fun _ =>
      Calls.ite ⟨trivial, fun _ => trivial⟩ (calls_verifyFrom_between digest k (src + 1))⟩⟩

/-- Between two barriers a rank has left as many as it has entered. -/
theorem safe_between {α : Type} {p : MProg α} {s : Nat × Nat} (hcalls : Calls Between p)
    (hs : s.1 = s.2) : Safe gate AtGate p s fun _ s => s.1 = s.2 := by
  refine hcalls.keeps trivial hs (fun s op hop hs => ?_) fun s op a hop hs _ => ?_
  · cases op with
    | barrierEnter | barrierLeave => exact hop.elim
    | _ => exact hs
  · cases op with
    | barrierEnter | barrierLeave => exact hop.elim
    | _ => exact hs

theorem safe_round_gate (r : Nat) {s : Nat × Nat} (hs : s.1 = s.2) :
    Safe gate AtGate (round size rank params r ()) s fun _ s => s.1 = s.2 := by
  have hrest : Calls Between (do
      let _ ← (if (targets rank params.direction).shouldSend then
        sendMessages size rank params (targets rank params.direction).sendTarget 0
        else pure (0, 0) : MProg (Int × Nat))
      if (targets rank params.direction).shouldRecv then do
        let start ← Prog.op (S := Mpi) .getCycles
        let recvd ← recvMessages size rank params (targets rank params.direction).recvSource 0
        let end_ ← Prog.op (S := Mpi) .getCycles
        act (.logRound r rank recvd.2 start end_)
      else pure ()) := by
    refine Calls.bind (Calls.ite (calls_sendMessages _ _) trivial) fun _ => Calls.ite ?_ trivial
    refine ⟨trivial, fun _ => (calls_recvMessages _ _).bind fun _ => ?_⟩
    exact ⟨trivial, fun _ => ⟨trivial, fun _ => trivial⟩⟩
  refine ⟨hs, fun _ _ => ⟨?_, fun _ _ => safe_between hrest ?_⟩⟩
  · show s.1 + 1 = s.2 + 1
    rw [hs]
  · show s.1 + 1 = s.2 + 1
    rw [hs]

theorem safe_exchange_gate :
    Safe gate AtGate (exchange sha1sum size rank params) (0, 0) fun _ s => s.1 = s.2 := by
  have hverify : Calls Between
      (verifyChecksum sha1sum (sizeT (params.length * params.count)) rank size) :=
    ⟨trivial, fun _ => Calls.ite (calls_verifyFrom_between _ _ _) ⟨trivial, fun _ => trivial⟩⟩
  refine (safe_forN (fun _ _ s => s.1 = s.2) rfl fun n _ s _ hs => ?_).bind fun _ s hs =>
    safe_between hverify hs
  exact safe_round_gate n hs

theorem safe_runOf_gate (testSyncPacket : Bool) :
    Safe gate AtGate (runOf sha1sum testSyncPacket size rank params) (0, 0) fun _ _ => True := by
  have hrest : Safe gate AtGate (do
      let _ ← exchange sha1sum size rank (paramsOf testSyncPacket params)
      act .free
      pure 0 : MProg Int) (0, 0) fun _ _ => True :=
    safe_exchange_gate.bind fun _ s hs => ⟨hs, fun _ _ => trivial⟩
  cases testSyncPacket with
  | true =>
    refine ⟨rfl, fun allocated _ => safe_ite.2 ⟨fun _ => trivial, fun _ => ?_⟩⟩
    exact ⟨rfl, fun _ _ => ⟨rfl, fun _ _ => hrest⟩⟩
  | false => exact ⟨rfl, fun allocated _ => safe_ite.2 ⟨fun _ => trivial, fun _ => hrest⟩⟩

/-- The blocks a rank has sent are those of the rounds it has entered. -/
def Within (params : DccsParameters) (size rank : Nat) (l : Local) : Prop :=
  ∀ d, talks params.direction rank d → d < size → ∀ k < (l.sends d).length,
    k < params.repeat_ * params.count → k < l.barriers * params.count

/-- As long as `int` holds its requests, a rank keeps within its rounds. -/
theorem safe_exchange_within {allocates : Prop} (hcounts : Countable params size)
    (hrank : rank < size) :
    Safe (watching True fun _ _ => True)
      (fun l op => Orderly allocates params size rank l op ∧ ∀ a,
        (watching True fun _ _ => True).adm l op a → Within params size rank (l.upd op a))
      (exchange sha1sum size rank params) {} fun _ l => Finished params size rank l := by
  have horderly : Safe (watching True fun _ _ => True) (Orderly allocates params size rank)
      (exchange sha1sum size rank params) {} fun _ l => Finished params size rank l :=
    safe_exchange_orderly sha1sum hrank
  refine (horderly.anticipate_allowed (F := Within params size rank) id ?_ ?_ ?_).2
  · intro l op hok
    cases op with
    | testall totalCount =>
      obtain ⟨rfl, hrecv, -⟩ := hok
      refine ⟨(), fun _ => ?_⟩
      rw [cInt_of_lt (hcounts.receives hrank hrecv)]
      exact Int.natCast_nonneg _
    | isend | irecv => exact ⟨(), fun _ => hok.2.nonneg hcounts⟩
    | recvWait => exact ⟨([] : List UInt8), trivial⟩
    | load length => exact ⟨([] : List UInt8), trivial⟩
    | mallocRandom size => exact ⟨true, trivial⟩
    | getCycles => exact ⟨(0 : UInt64), trivial⟩
    | _ => exact ⟨(), trivial⟩
  · intro l op a hok hwithin d hd hsize k hk hround
    by_cases henter : op = .barrierEnter
    · subst henter
      rw [← hok.2.1 d hd hsize]
      exact hk
    · have hb : (l.upd op a).barriers = l.barriers := by
        cases op with
        | barrierEnter => exact absurd rfl henter
        | _ => rfl
      rw [← hb]
      exact hwithin d hd hsize k (Nat.lt_of_lt_of_le hk (sends_upd l op a d).length_le) hround
  · intro v l h d hd hsize k _ hround
    rw [h.passed.barriers]
    exact hround

end rank

/-! ## All ranks -/

/-- What holds of the ranks, of MPI, and of the barriers. -/
structure Gated (params : DccsParameters) (size : Nat) (w : World) (t : Fin size → Nat × Nat) :
    Prop where
  flow : Flow params size w
  inRound : ∀ r < size, InRound params size r (w.loc r)
  entered : ∀ r : Fin size, (t r).1 = (w.loc r).barriers
  left : ∀ r : Fin size, (t r).1 ≤ (t r).2 + 1
  all : ∀ p : Fin size, ∀ q < size, (t p).2 ≤ (w.loc q).barriers
  behind : ∀ s : Fin size, ∀ d, talks params.direction s d → d < size →
    ∀ k < ((w.loc s).sends d).length, k < params.repeat_ * params.count → k < (t s).2 * params.count

namespace Gated

variable {params : DccsParameters} {size : Nat} {w w' : World} {t : Fin size → Nat × Nat}

theorem start (params : DccsParameters) (size : Nat) (mem : Nat → Nat → UInt8) :
    Gated params size { mem } fun _ => (0, 0) where
  flow := .start params size mem
  inRound r _ := inRound_nil params size r
  entered _ := rfl
  left _ := Nat.zero_le _
  all _ _ _ := Nat.zero_le _
  behind _ _ _ _ _ hk := absurd hk (Nat.not_lt_zero _)

theorem tick (h : Gated params size w t) {x : Tick} (ht : w.tick x = some w') :
    Gated params size w' t := by
  have hloc := World.tick_loc ht
  refine ⟨h.flow.tick ht, ?_, ?_, h.left, ?_, ?_⟩
  · rw [hloc]
    exact h.inRound
  · rw [hloc]
    exact h.entered
  · rw [hloc]
    exact h.all
  · rw [hloc]
    exact h.behind

theorem called {allocates : Prop} {r : Fin size} {hint : Hint} {op : MOp} {a : MOp.Ans op}
    (h : Gated params size w t) (ha : w.answer size hint r op = some a)
    (hok : Orderly allocates params size r (w.loc r) op)
    (hplan : OnPlan params size r ((w.loc r).upd op a))
    (hwithin : Within params size r ((w.loc r).upd op a)) (hgate : AtGate (t r) op) :
    Gated params size (w.called hint r op a) (Function.update t r (gate.upd (t r) op a)) := by
  have hloc : ∀ q : Nat, q ≠ r → (w.called hint r op a).loc q = w.loc q := by
    intro q hq
    rw [World.called_loc, if_neg hq]
  have hself : (w.called hint r op a).loc r = (w.loc r).upd op a := by
    rw [World.called_loc, if_pos rfl]
  have hbarriers : ∀ q, (w.loc q).barriers ≤ ((w.called hint r op a).loc q).barriers := by
    intro q
    by_cases hq : q = r
    · subst hq
      rw [hself]
      cases op with
      | barrierEnter => exact Nat.le_succ _
      | _ => exact Nat.le_refl _
    · rw [hloc q hq]
  -- the counts of the rank that has called
  have hcounts : (gate.upd (t r) op a).1 = ((w.loc r).upd op a).barriers ∧
      (gate.upd (t r) op a).1 ≤ (gate.upd (t r) op a).2 + 1 ∧
      ∀ q < size, (gate.upd (t r) op a).2 ≤ (w.loc q).barriers := by
    have hentered := h.entered r
    cases op with
    | barrierEnter =>
      refine ⟨congrArg (· + 1) hentered, ?_, h.all r⟩
      show (t r).1 + 1 ≤ (t r).2 + 1
      rw [show (t r).1 = (t r).2 from hgate]
    | barrierLeave =>
      have hgate : (t r).1 = (t r).2 + 1 := hgate
      refine ⟨hentered, ?_, fun q hq => ?_⟩
      · show (t r).1 ≤ (t r).2 + 1 + 1
        omega
      · show (t r).2 + 1 ≤ (w.loc q).barriers
        simp only [World.answer] at ha
        split at ha
        · rename_i hall
          rw [← hgate, hentered]
          exact hall q hq
        · cases ha
    | _ => exact ⟨hentered, h.left r, h.all r⟩
  refine ⟨h.flow.called r.isLt ha hplan, fun q hq => ?_, fun q => ?_, fun q => ?_,
    fun p q hq => ?_, fun s d hd hsize k hk hround => ?_⟩
  · by_cases hqr : q = r
    · subst hqr
      rw [hself]
      exact (h.inRound r r.isLt).upd hok a
    · rw [hloc q hqr]
      exact h.inRound q hq
  · by_cases hqr : q = r
    · subst hqr
      rw [Function.update_self, hself]
      exact hcounts.1
    · rw [Function.update_of_ne hqr, hloc q fun heq => hqr (Fin.ext heq)]
      exact h.entered q
  · by_cases hqr : q = r
    · subst hqr
      rw [Function.update_self]
      exact hcounts.2.1
    · rw [Function.update_of_ne hqr]
      exact h.left q
  · refine Nat.le_trans ?_ (hbarriers q)
    by_cases hpr : p = r
    · subst hpr
      rw [Function.update_self]
      exact hcounts.2.2 q hq
    · rw [Function.update_of_ne hpr]
      exact h.all p q hq
  · by_cases hsr : s = r
    · subst hsr
      rw [Function.update_self]
      rw [hself] at hk
      have hleft : k < ((w.loc s).sends d).length → k < (t s).2 * params.count :=
        fun hk => h.behind s d hd hsize k hk hround
      cases op with
      | barrierEnter => exact hleft hk
      | barrierLeave =>
        refine Nat.lt_of_lt_of_le (hleft hk) (Nat.mul_le_mul_right _ ?_)
        exact Nat.le_succ _
      | _ =>
        have hnow : k < (w.loc s).barriers * params.count := hwithin d hd hsize k hk hround
        rwa [← h.entered s, show (t s).1 = (t s).2 from hgate] at hnow
    · rw [Function.update_of_ne hsr]
      rw [hloc s fun heq => hsr (Fin.ext heq)] at hk
      exact h.behind s d hd hsize k hk hround

end Gated

section runs
variable {sha1sum : List UInt8 → Digest} {testSyncPacket : Bool} {params : DccsParameters}
  {size : Nat}

/-- Either build of `run` is orderly, keeps to the plan and within its rounds. -/
theorem safe_runOf_within {rank : Nat} (hrank : rank < size)
    (hcounts : Countable (paramsOf testSyncPacket params) size) :
    Safe (watching True fun _ _ => True).lenient
      (fun l op => (Orderly True (paramsOf testSyncPacket params) size rank l op ∧ ∀ a,
        (watching True fun _ _ => True).adm l op a →
          Within (paramsOf testSyncPacket params) size rank (l.upd op a)) ∧
        ∀ a, OnPlan (paramsOf testSyncPacket params) size rank (l.upd op a))
      (runOf sha1sum testSyncPacket size rank params) {} fun _ _ => True := by
  have hnone : Within (paramsOf testSyncPacket params) size rank {} :=
    fun _ _ _ k hk => absurd hk (Nat.not_lt_zero k)
  have hexchange : Safe (watching True fun _ _ => True).lenient
      (fun l op => Orderly True (paramsOf testSyncPacket params) size rank l op ∧ ∀ a,
        (watching True fun _ _ => True).adm l op a →
          Within (paramsOf testSyncPacket params) size rank (l.upd op a))
      (exchange sha1sum size rank (paramsOf testSyncPacket params)) {}
      fun _ l => Finished (paramsOf testSyncPacket params) size rank l :=
    (safe_exchange_within hcounts hrank).relax rfl (fun _ _ _ h => h) (fun h => h.elim)
      fun _ _ h => h
  have hrun := safe_runOf sha1sum rfl (fun _ _ => trivial)
    (fun _ => ⟨trivial, fun _ _ => hnone⟩) (fun _ _ => ⟨trivial, fun _ _ => hnone⟩)
    testSyncPacket size rank params hexchange fun v l h => ⟨⟨trivial, h.passed⟩, fun _ _ d hd hsize k _ hround => ?_⟩
  · have hkeeps : Safe (watching True fun _ _ => True).lenient
        (fun l op => ∀ a, OnPlan (paramsOf testSyncPacket params) size rank (l.upd op a))
        (runOf sha1sum testSyncPacket size rank params) {} fun _ _ => True :=
      (safe_runOf_planned sha1sum testSyncPacket params hrank).relax rfl
        (fun l op a _ => history_admits l op a) id fun _ _ h => h
    exact (hrun.both hkeeps).mono fun _ _ _ => trivial
  · show k < l.barriers * _
    rw [h.passed.barriers]
    exact hround

theorem gated_reachable (hcounts : Countable (paramsOf testSyncPacket params) size)
    {mem : Nat → Nat → UInt8} {c : Conf (mpi size) Int}
    (hc : Reachable AnyMpiStep
      (launch mem fun rank : Fin size => runOf sha1sum testSyncPacket size rank params) c) :
    ∃ t, Gated (paramsOf testSyncPacket params) size c.st t := by
  have hinv := mpi_invariant_ghost (I := Gated (paramsOf testSyncPacket params) size) rfl ?_
    (fun _ w w' g _ h ht => h.tick ht) (Gated.start _ size mem)
    (fun rank => (safe_runOf_within rank.isLt hcounts).prod
      (safe_runOf_gate testSyncPacket)) hc
  · obtain ⟨t, h, -⟩ := hinv
    exact ⟨t, h⟩
  · rintro rank hint op a w t - h ⟨⟨⟨hok, hwithin⟩, hplan⟩, hgate⟩ ha
    exact ⟨watching_admits ha, trivial,
      h.called ha hok (hplan a) (hwithin a (watching_admits ha)) hgate⟩

end runs

/-- No two ranks are more than a barrier apart, and who has sent a block finds every block of the
rounds before it arrived. -/
structure Isolated (params : DccsParameters) (size : Nat) (w : World) : Prop where
  lockstep : ∀ p q : Fin size, (w.loc p).barriers ≤ (w.loc q).barriers + 1
  arrived : ∀ s d k, talks params.direction s d → s < size → d < size →
    k < params.repeat_ * params.count → k < ((w.loc s).sends d).length →
    ∀ s' d' k', talks params.direction s' d' → s' < size → d' < size →
    k' < k / params.count * params.count → (w.got (s', d', k')).isSome

/-- **Isolation of the rounds**, for both builds, in every direction and over every run. -/
theorem rounds_isolated (sha1sum : List UInt8 → Digest) (testSyncPacket : Bool)
    (params : DccsParameters) (size : Nat) (mem : Nat → Nat → UInt8)
    (hcounts : Countable (paramsOf testSyncPacket params) size) (c : Conf (mpi size) Int)
    (hc : Reachable AnyMpiStep
      (launch mem fun rank : Fin size => runOf sha1sum testSyncPacket size rank params) c) :
    Isolated (paramsOf testSyncPacket params) size c.st := by
  obtain ⟨t, h⟩ := gated_reachable hcounts hc
  refine ⟨fun p q => ?_, fun s d k hsd hs hd hround hk s' d' k' hsd' hs' hd' hk' => ?_⟩
  · have hp := h.left p
    rw [h.entered p] at hp
    exact hp.trans (Nat.succ_le_succ (h.all p q q.isLt))
  · have hleft := h.behind ⟨s, hs⟩ d hsd hd k hk hround
    have hnumber := Nat.div_lt_of_lt_mul (Nat.mul_comm _ _ ▸ hleft)
    -- the receiver has entered the barrier of this round
    have hentered := h.all ⟨s, hs⟩ d' hd'
    refine h.flow.complete s' d' k' ((h.inRound d' hd').behind s' hsd' hs' k' ?_)
    exact Nat.lt_of_lt_of_le hk' (Nat.mul_le_mul_right _ (by omega))

/-- Two ranks send each other their sync packet twice. -/
def twoRounds : DccsParameters := { oneSend with direction := .dirBoth, repeat_ := 2 }

/-- Two ranks that exchange blocks, to the second block of `a`. -/
def twoBlocks {size : Nat} (a b : Fin size) : List (Label (mpi size)) :=
  mcalls a 4 ++ mcalls b 9 ++ mcalls a 5 ++
    ticks size [.pair a b, .read a b 0, .deliver a b 0, .pair b a, .read b a 0, .deliver b a 0] ++
    mcalls b 4 ++ mcalls a 6

theorem rounds_isolated_twoRounds : ∃ c : Conf (mpi 2) Int,
    ((World.loc c.st 0).sends 1).length = 2 ∧ Isolated (paramsOf true twoRounds) 2 c.st := by
  have hrun : ((launch (fun _ _ => 0) fun rank : Fin 2 => runOf
    (fun _ => Vector.replicate 20 0) true 2 rank twoRounds).follow
      (twoBlocks 0 1)).bind (fun c => some ((World.loc c.st 0).sends 1).length) = some 2 := by
    decide +kernel
  obtain ⟨c, hreach, hlength⟩ := Reachable.of_follow (fun l _ w => (trivial : AnyMpiStep l w)) hrun
  exact ⟨c, Option.some.inj hlength,
    rounds_isolated _ true twoRounds 2 _ (by unfold Countable; decide) c hreach⟩

end RdmaOpera.MpiExec
