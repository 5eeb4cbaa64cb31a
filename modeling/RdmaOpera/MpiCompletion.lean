import RdmaOpera.MpiProgress

/-!
# Every run completes

Either build of `run`, in every direction, with any number of ranks: unless `malloc_random` fails no
interleaving gets stuck and none goes on for ever, everybody returns 0, and when all ranks have
returned every block of every round has arrived.
-/

namespace RdmaOpera.MpiExec

open Lib Prog

/-- `malloc_random` does not fail. -/
def Allocating {size : Nat} (l : Label (mpi size)) (_ : World) : Prop :=
  match l with
  | .call _ hint => (Hint.fresh hint).isSome = true
  | .tick _ => True

instance {size : Nat} : ∀ (l : Label (mpi size)) (w : (mpi size).St), Decidable (Allocating l w)
  | .call _ hint, _ => inferInstanceAs (Decidable ((Hint.fresh hint).isSome = true))
  | .tick _, _ => inferInstanceAs (Decidable True)

/-- What a rank can rely on then. -/
def allocating : Monitor Mpi Local where
  upd l op a := l.upd op a
  adm l op a := (watching True fun _ _ => True).adm l op a ∧ match op, a with
    | .mallocRandom _, (allocated : Bool) => allocated = true
    | _, _ => True
  spins := False

section runs
variable {sha1sum : List UInt8 → Digest} {testSyncPacket : Bool} {params : DccsParameters}
  {size : Nat} {mem : Nat → Nat → UInt8} {c : Conf (mpi size) Int}

theorem safe_runOf_orderly {rank : Nat} (hrank : rank < size) :
    Safe allocating
      (fun l op => Orderly True (paramsOf testSyncPacket params) size rank l op ∧
        ∀ a, OnPlan (paramsOf testSyncPacket params) size rank (l.upd op a))
      (runOf sha1sum testSyncPacket size rank params) {}
      fun v l => v = 0 ∧ Finished (paramsOf testSyncPacket params) size rank l := by
  have hexchange : Safe allocating
      (fun l op => Orderly True (paramsOf testSyncPacket params) size rank l op ∧
        ∀ a, OnPlan (paramsOf testSyncPacket params) size rank (l.upd op a))
      (exchange sha1sum size rank (paramsOf testSyncPacket params)) {}
      fun _ l => Finished (paramsOf testSyncPacket params) size rank l ∧
        OnPlan (paramsOf testSyncPacket params) size rank l :=
    (safe_exchange_underway sha1sum hrank).relax rfl (fun _ _ _ h => h.1) id fun _ _ h => h
  have hnil := onPlan_nil (paramsOf testSyncPacket params) size rank
  refine (safe_runOf (m := allocating) sha1sum rfl (fun _ h => nomatch h.2) (fun _ => ⟨trivial, fun _ => hnil⟩)
    (fun _ _ => ⟨trivial, fun _ => hnil⟩) testSyncPacket size rank params
    hexchange fun v l h => ⟨⟨trivial, h.1.passed⟩, fun _ => h.2⟩).mono ?_
  rintro v l ⟨hv, -, hl, -⟩
  exact ⟨hv, hl⟩

theorem run_underway
    (hc : Reachable Allocating
      (launch mem fun rank : Fin size => runOf sha1sum testSyncPacket size rank params) c) :
    Underway (paramsOf testSyncPacket params) size c.st ∧ ∀ rank : Fin size,
      Safe allocating (Orderly True (paramsOf testSyncPacket params) size rank) (c.prog rank)
        (World.loc c.st rank)
        fun v l => v = 0 ∧ Finished (paramsOf testSyncPacket params) size rank l := by
  refine underway_of_safe (m := allocating) rfl (fun rank hint op a w hallow ha => ?_)
    (fun rank => safe_runOf_orderly rank.isLt) hc
  refine ⟨watching_admits ha, ?_⟩
  cases op with
  | mallocRandom n =>
    obtain rfl : hint.fresh.isSome = a := Option.some.inj ha
    exact hallow
  | _ => trivial

end runs

/-! ## Completion -/

section completion
variable (params : DccsParameters) {size : Nat}

/-- What holds in one state of a run. -/
structure Completing (c : Conf (mpi size) Int) : Prop where
  progress : (∃ r, ∀ rv, c.prog r ≠ .ret rv) → c.CanStep Allocating
  terminates : Acc (Conf.Step AnyMpiStep) c
  returned : ∀ r rv, c.prog r = .ret rv → rv = 0
  arrived : (∀ r, ∃ rv, c.prog r = .ret rv) → ∀ s d : Fin size, talks params.direction s d →
    ∀ k < params.repeat_ * params.count, (World.got c.st (s.val, d.val, k)).isSome

end completion

/-- **Completion** of either build, in every direction, unless there is no memory. -/
theorem run_completes (sha1sum : List UInt8 → Digest) (testSyncPacket : Bool)
    (params : DccsParameters) (size : Nat) (mem : Nat → Nat → UInt8)
    (hlength : (paramsOf testSyncPacket params).length < 2 ^ 31)
    (hcounts : Countable (paramsOf testSyncPacket params) size) (c : Conf (mpi size) Int)
    (hc : Reachable Allocating
      (launch mem fun rank : Fin size => runOf sha1sum testSyncPacket size rank params) c) :
    Completing (paramsOf testSyncPacket params) c := by
  have hnonneg : 0 ≤ cInt (paramsOf testSyncPacket params).length := by
    rw [cInt_of_lt hlength]
    exact Int.natCast_nonneg _
  obtain ⟨hunder, hsafe⟩ := run_underway hc
  refine ⟨hunder.progress (fun _ _ => rfl) (fun _ _ => trivial) hnonneg hcounts (m := allocating) id
      fun r => (hsafe r).mono fun _ _ h => h.2,
    terminates_of_aligned (fun c' hc' => aligned_reachable sha1sum testSyncPacket size params hc')
      (hc.mono fun _ _ _ => trivial), fun r rv hret => ?_, fun hall s d htalks k hk => ?_⟩
  · have hfinished := hsafe r
    rw [hret] at hfinished
    exact hfinished.1
  · obtain ⟨rv, hret⟩ := hall d
    have hfinished := hsafe d
    rw [hret] at hfinished
    exact hunder.flow.complete s d k (hfinished.2.passed.complete s htalks s.isLt k hk)

/-- `a` sends its packet and its digest and frees the buffer before the packet is read out of it. -/
def readFreed {size : Nat} (a b : Fin size) : List (Label (mpi size)) :=
  mcalls a 4 ++ mcalls b 4 ++ mcalls a 6 ++ mcalls b 3 ++
    ticks size [.pair a b, .read a b 0 fun _ => 7, .deliver a b 0] ++ mcalls b 5 ++
    ticks size [.pair a b, .deliver a b 1] ++ mcalls b 2

theorem run_completes_towardsRank0 : ∃ c : Conf (mpi 2) Int,
    World.freed c.st 1 = true ∧ World.got c.st (1, 0, 0) = some [7, 7, 7, 7, 7] ∧
      Completing (paramsOf true towardsRank0) c := by
  have hrun : ((launch (fun _ _ => 0) fun rank : Fin 2 => runOf
    (fun _ => Vector.replicate 20 0) true 2 rank towardsRank0).followIf Allocating
      (readFreed 1 0)).bind (fun c => some (World.freed c.st 1, World.got c.st (1, 0, 0))) =
      some (true, some [7, 7, 7, 7, 7]) := by
    decide +kernel
  obtain ⟨c, hreach, hseen⟩ := Reachable.of_followIf hrun
  simp only [Option.some.injEq, Prod.mk.injEq] at hseen
  exact ⟨c, hseen.1, hseen.2,
    run_completes _ true towardsRank0 2 _ (by decide) (by unfold Countable; decide) c hreach⟩

end RdmaOpera.MpiExec
