import RdmaOpera.MpiContent
import RdmaOpera.MpiProgress

/-!
# Content agreement in the direction 1-N

With a length and as many requests as `int` can hold: when the round loop is over every buffer is
rank 0's, no run gets stuck, and the verdict of rank 0 is 0. With a count of 2^31 `MPI_Testall` is
given a negative number of requests (`mpi_main.c:156`), and no rank comes to an end.
-/

namespace RdmaOpera.MpiExec

open Lib Prog

/-! ## The rounds and the checksum -/

section agreement
variable (sha1sum : List UInt8 → Digest) (params : DccsParameters) (size : Nat)

/-- The round loop is over: what the rank has left to do is the rest of `verify_checksum`. -/
def LoopFinished (rank : Nat) (p : MProg Int) : Prop :=
  ∃ l l', Reach history (verifyChecksum sha1sum (sizeT (params.length * params.count)) rank size) l p l'

/-- What holds in one state of a run from these buffers. -/
structure Agrees (mem : Nat → Nat → UInt8) (c : Conf (mpi size) Int) : Prop where
  buffers : ∀ d : Fin size, LoopFinished sha1sum params size d (c.prog d) →
    bytesAt (World.mem c.st d) (whole params) = bytesAt (mem 0) (whole params) ∧
      ∀ n < params.count, bytesAt (World.mem c.st d) (cellOf params n) =
        bytesAt (mem 0) (cellOf params n)
  verdict : ∀ (r : Fin size) (rv : Int), r.val = 0 → c.prog r = .ret rv → rv = 0
  progress : (∃ r, ∀ rv, c.prog r ≠ .ret rv) → c.CanStep AnyMpiStep
  terminates : Acc (Conf.Step AnyMpiStep) c

/-- Rank 0's buffer arrives everywhere, and rank 0 finds it there. -/
def ContentAgreement (mem : Nat → Nat → UInt8) : Prop :=
  ∀ c, Reachable AnyMpiStep (launch mem fun rank : Fin size => exchange sha1sum size rank params)
    c → Agrees sha1sum params size mem c

end agreement

/-- The calls of `verify_checksum`. -/
def Verifying : MOp → Prop
  | .load _ | .recvPost _ _ | .recvWait | .send _ _ | .logError _ => True
  | _ => False

theorem calls_verifyFrom (digest : Digest) : ∀ k src, Calls Verifying (verifyFrom digest k src)
  | 0, _ => trivial
  | k + 1, src => by
    refine ⟨trivial,
      fun _ => ⟨trivial, fun _ => Calls.ite ⟨trivial, fun _ => trivial⟩ (calls_verifyFrom digest k (src + 1))⟩⟩

theorem calls_verifyChecksum (sha1sum : List UInt8 → Digest) (bufferSize rank size : Nat) :
    Calls Verifying (verifyChecksum sha1sum bufferSize rank size) :=
  ⟨trivial, fun _ => Calls.ite (calls_verifyFrom _ _ _) ⟨trivial, fun _ => trivial⟩⟩

section rounds
variable {sha1sum : List UInt8 → Digest} {params : DccsParameters} {size : Nat} {mem : Nat →
  Nat → UInt8} {c : Conf (mpi size) Int}

/-- Who has nothing but `verify_checksum` left is through. -/
theorem through_of_finished {allocates : Prop} {rank : Nat} {p : MProg Int} {l : Local}
    (h : LoopFinished sha1sum params size rank p)
    (hsafe : Safe (trusting sha1sum params) (Careful sha1sum allocates params size rank) p l
      (Ended params size rank)) :
    Through params size rank l := by
  obtain ⟨l₁, l₂, hreach⟩ := h
  have hcalls := (calls_verifyChecksum sha1sum _ _ _).reach hreach
  cases p with
  | ret rv => exact hsafe.through
  | call op k =>
    have hok := hsafe.1
    cases op with
    | load length => exact hok.2
    | recvPost length src => exact hok.2
    | recvWait => exact hok.2.1
    | send data dest => exact hok.2.2.1
    | logError format => exact hok.2
    | _ => exact hcalls.1.elim
  | spin => exact hsafe.elim

theorem exchange_reachable (hdir : params.direction = .dirOut)
    (hpos : 0 < params.repeat_ * params.count)
    (hc : Reachable AnyMpiStep (launch mem fun rank : Fin size => exchange sha1sum size rank params) c) :
    Content sha1sum False params size (mem 0) c.st ∧ ∀ rank : Fin size,
      Safe (trusting sha1sum params) (Careful sha1sum False params size rank) (c.prog rank)
      (World.loc c.st rank) (Ended params size rank) := by
  refine content_reachable sha1sum rfl rfl id hdir hpos (fun rank => ?_)
    (fun rank => safe_exchange_careful sha1sum hdir rank.isLt) hc
  have hkeeps : Safe (trusting sha1sum params) (fun l op => ∀ a,
    OnPlan params size rank (l.upd op a))
      (exchange sha1sum size rank params) {} fun _ l => OnPlan params size rank l :=
    (safe_exchange_keeps sha1sum rank.isLt).relax rfl (fun l op a _ => history_admits l op a) id
      fun _ _ h => h
  exact hkeeps.mono fun _ _ _ => trivial

end rounds

/-- **Content agreement**, with as many requests as `int` can hold. -/
theorem contentAgreement_of_count (sha1sum : List UInt8 → Digest) (params : DccsParameters)
    (size : Nat) (mem : Nat → Nat → UInt8) (hdir : params.direction = .dirOut)
    (hcount : 1 ≤ params.count) (hlength : params.length < 2 ^ 31) (hrepeat : 1 ≤ params.repeat_)
    (hint : (size - 1) * params.count < 2 ^ 31) : ContentAgreement sha1sum params size mem := by
  intro c hc
  have hpos : 0 < params.repeat_ * params.count := Nat.mul_pos hrepeat hcount
  have hexact : Exact params := cInt_of_lt hlength
  have hnonneg : 0 ≤ cInt params.length := hexact ▸ Int.natCast_nonneg _
  obtain ⟨hcontent, hsafe⟩ := exchange_reachable hdir hpos hc
  obtain ⟨horiginal, -⟩ := hcontent.original id
  refine ⟨fun d hd => ?_, fun r rv h0 hret => ?_, exchange_progress hnonneg hint hc,
    exchange_terminates hc⟩
  · have hthrough := through_of_finished hd (hsafe d)
    have hreceived : ∀ n < params.count, ∀ a, (cellOf params n).Contains a →
      World.mem c.st d a = mem 0 a := by
      intro n hn a ha
      rw [hcontent.received hdir hexact hrepeat d.isLt hthrough hn ha, horiginal]
    refine ⟨bytesAt_congr fun a ha => ?_, fun n hn => bytesAt_congr (hreceived n hn)⟩
    obtain ⟨n, hn, hcell⟩ := exists_cellOf ha
    exact hreceived n hn a hcell
  · have hended := hsafe r
    rw [hret] at hended
    exact hended.verdict h0 hexact

/-- Two blocks of three bytes to two other ranks, twice. -/
theorem contentAgreement_of_count_threeRanks :
    ContentAgreement (fun _ => Vector.replicate 20 0)
      { oneSend with count := 2, length := 3, repeat_ := 2 } 3 fun rank _ => if rank = 0 then 1 else 0 :=
  contentAgreement_of_count _ { oneSend with count := 2, length := 3, repeat_ := 2 } 3 _ rfl
    (by decide) (by decide) (by decide) (by decide)

/-! ## A count that `int` does not hold -/

section returned
variable {sha1sum : List UInt8 → Digest} {params : DccsParameters} {size : Nat}
  {mem : Nat → Nat → UInt8} {c : Conf (mpi size) Int} {r : Fin size} {rv : Int}

/-- Whoever has received anything and returns has been let through by `MPI_Testall`. -/
theorem counted_of_returned (hrepeat : 0 < params.repeat_)
    (hc : Reachable AnyMpiStep (launch mem fun rank : Fin size => exchange sha1sum size rank params) c)
    (hret : c.prog r = .ret rv) (hrecv : (targets r params.direction).shouldRecv = true) :
    requestCount (targets r params.direction).recvSource size * params.count < 2 ^ 31 := by
  have hsafe : ∀ rank : Fin size, Safe (watching True fun _ _ => True).lenient (fun _ _ => True)
      (exchange sha1sum size rank params) {} fun _ _ =>
        (targets rank params.direction).shouldRecv = true →
          requestCount (targets rank params.direction).recvSource size * params.count < 2 ^ 31 := by
    intro rank
    have hrounds : Safe (watching True fun _ _ => True).lenient (fun _ _ => True)
        (forN params.repeat_ (round size rank params) ()) {} fun _ l =>
          Advanced True params rank size params.repeat_ {} l := by
      refine Safe.relax (safe_rounds (fun _ _ _ => trivial) rank.isLt (fun _ _ _ _ => trivial)
        fun _ _ _ _ _ _ _ _ _ _ => trivial) rfl (fun _ _ _ h => h) (fun h => h.elim) fun _ _ h => h
    refine hrounds.bind fun _ l h => ?_
    exact (calls_verifyChecksum sha1sum _ _ _).keeps trivial
      (fun hrecv => h.counted trivial hrecv hrepeat) (fun _ _ _ _ => trivial) fun _ _ _ _ h _ => h
  have h := (mpi_invariant (I := fun _ => True) (m := (watching True fun _ _ => True).lenient) rfl
    (fun _ _ _ _ _ _ _ _ ha => ⟨watching_admits ha, trivial⟩) (fun _ _ _ _ _ _ => trivial) trivial
    hsafe hc).2 r
  rw [hret] at h
  exact h hrecv

end returned

/-- 2^31 blocks of one byte, once. -/
def manyBlocks : DccsParameters := { oneSend with count := 2 ^ 31 }

theorem contentAgreement_counterexample :
    ¬ ContentAgreement (fun _ => Vector.replicate 20 0) manyBlocks 2 fun rank _ =>
      if rank = 0 then 1 else 0 := by
  intro h
  -- rank 1 would have to return at last
  obtain ⟨c, hc, hall⟩ :=
    Reachable.exists_returned (fun c hc => (h c hc).progress) (h _ .init).terminates .init
  obtain ⟨rv, hret⟩ := hall 1
  exact absurd (counted_of_returned (by decide) hc hret rfl) (by decide)

end RdmaOpera.MpiExec
