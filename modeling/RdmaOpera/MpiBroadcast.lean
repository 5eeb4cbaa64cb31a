import RdmaOpera.Checksum
import RdmaOpera.MpiMatching

/-!
# The direction 1-N, rank by rank

Rank 0 sends its blocks and collects the digests; the others receive every block of every round
before they send theirs.
-/

namespace RdmaOpera.MpiExec

open Lib Prog

/-- The length as `int` is the length. -/
def Exact (params : DccsParameters) : Prop := cInt params.length = params.length

/-- Behind the round loop. -/
structure Through (params : DccsParameters) (size rank : Nat) (l : Local) : Prop where
  barriers : l.barriers = params.repeat_
  sends : rank = 0 → ∀ d, d ≠ 0 → d < size → rounds params params.repeat_ <+: l.sends d
  complete : rank ≠ 0 → ∀ k < params.repeat_ * params.count, (0, k) ∈ l.complete

/-- What a rank has ended with. -/
structure Ended (params : DccsParameters) (size rank : Nat) (rv : Int) (l : Local) : Prop where
  through : Through params size rank l
  verdict : rank = 0 → Exact params → rv = 0
  heard : rank = 0 → Exact params ∨ size = 2 → ∀ s, 1 ≤ s → s < size → (s, 0) ∈ l.complete
  sent : rank ≠ 0 → 0 < (l.sends 0).length

section sha1
variable (sha1sum : List UInt8 → Digest)

/-- If the blocks arrive whole, the digests that arrive are those of the rank's own buffer. -/
def trusting (params : DccsParameters) : Monitor Mpi Local :=
  watching True fun l bytes => Exact params → ∀ content, l.loaded = some content →
    bytes = (sha1sum content).toList

/-- What can be asked of the calls of a rank; `allocates` tells `run` from its rounds alone. -/
def Careful (allocates : Prop) (params : DccsParameters) (size rank : Nat) (l : Local) : MOp → Prop
  | .mallocRandom _ | .store _ _ => allocates ∧ l = {}
  | .barrierEnter =>
    l.barriers < params.repeat_ ∧
      (rank = 0 → ∀ d, d ≠ 0 → d < size → (l.sends d).length = l.barriers * params.count)
  | .testall totalCount =>
    rank ≠ 0 ∧ totalCount = cInt params.count ∧
      ∀ i < params.count, ∃ k, l.requests i = some (0, k) ∧ k < (l.recvs 0).length ∧
      k < l.barriers * params.count
  | .load length => length = sizeT (params.length * params.count) ∧ Through params size rank l
  | .send data dest =>
    dest = 0 ∧ rank ≠ 0 ∧ Through params size rank l ∧ ∃ content, l.loaded = some content ∧
      data = (sha1sum content).toList
  | .recvPost _ _ | .logError _ => rank = 0 ∧ Through params size rank l
  | .recvWait =>
    rank = 0 ∧ Through params size rank l ∧ ∃ src, 1 ≤ src ∧ src < size ∧
      l.waiting = some (src, 0) ∧ 0 < (l.recvs src).length
  | .free =>
    allocates ∧ (rank = 0 → Exact params ∨ size = 2 → ∀ s, 1 ≤ s → s < size → (s, 0) ∈ l.complete)
  | .isend _ length _ request | .irecv _ length _ request =>
    length = cInt params.length ∧ Counts ((size - 1) * params.count) request
  | .requestFree _ | .barrierLeave | .getCycles | .logRound _ _ _ _ _ => True

variable {allocates : Prop} {params : DccsParameters} {size rank : Nat}

theorem careful_quiet (l : Local) (op : MOp) (h : Quiet params ((size - 1) * params.count) op) :
    Careful sha1sum allocates params size rank l op := by
  cases op with
  | isend | irecv => exact h
  | requestFree | barrierLeave | getCycles | logRound => trivial
  | _ => exact h.elim

/-- Nobody but rank 0 sends blocks. -/
theorem Advanced.history_out {strict : Prop} {n : Nat} {l : Local}
    (hdir : params.direction = .dirOut) (hrank : rank < size)
    (h : Advanced strict params rank size n {} l) :
    (∀ d, l.sends d = if rank = 0 ∧ d ≠ 0 ∧ d < size then rounds params n else []) ∧
      (∀ s, l.recvs s = if s = 0 ∧ rank ≠ 0 then rounds params n else []) ∧ l.barriers = n := by
  refine ⟨fun d => ?_, fun s => ?_, by simpa using h.barriers⟩
  · have hiff : talks params.direction rank d ∧ d < size ↔ rank = 0 ∧ d ≠ 0 ∧ d < size := by
      rw [hdir, talks, and_assoc]
    rw [h.sends]
    simp only [hiff, List.nil_append]
  · have hiff : talks params.direction s rank ∧ s < size ↔ s = 0 ∧ rank ≠ 0 := by
      rw [hdir, talks]
      omega
    rw [h.recvs]
    simp only [hiff, List.nil_append]

theorem requestCount_out (hdir : params.direction = .dirOut) :
    requestCount (targets rank params.direction).recvSource size = 1 := by
  rw [hdir]
  rfl

theorem Advanced.through {l : Local} (hdir : params.direction = .dirOut) (hrank : rank < size)
    (h : Advanced True params rank size params.repeat_ {} l) : Through params size rank l := by
  obtain ⟨hsends, hrecvs, hbarriers⟩ := h.history_out hdir hrank
  refine ⟨hbarriers, fun h0 d hd hsize => ?_, fun h0 k hk => ?_⟩
  · rw [hsends, if_pos ⟨h0, hd, hsize⟩]
  · refine h.arrived trivial 0 k (Nat.zero_le k) ?_
    rwa [hrecvs, if_pos ⟨rfl, h0⟩, length_rounds]

theorem Through.upd {l : Local} (h : Through params size rank l) (op : MOp) (a : MOp.Ans op)
    (hb : (l.upd op a).barriers = l.barriers) :
    Through params size rank (l.upd op a) where
  barriers := hb.trans h.barriers
  sends h0 d hd hsize := (h.sends h0 d hd hsize).trans (sends_upd l op a d)
  complete h0 k hk := by
    have hold := h.complete h0 k hk
    cases op with
    | testall totalCount => exact List.mem_append_left _ hold
    | recvWait => exact List.mem_append_left _ hold
    | _ => exact hold

/-- What `recv_messages` waits for is all from rank 0. -/
theorem Awaiting.careful {n : Nat} {l l₁ l₂ : Local} (hdir : params.direction = .dirOut)
    (hrank : rank < size) (h : Advanced True params rank size n {} l)
    (hr : (targets rank params.direction).shouldRecv = true) (hrecvs : l₁.recvs = l.recvs)
    (hbarriers : l₁.barriers = l.barriers + 1)
    (hawait : Awaiting True params (targets rank params.direction).recvSource rank size l₁
      params.count 0 l₂) :
    Careful sha1sum allocates params size rank l₂
      (.testall (cInt (requestCount (targets rank params.direction).recvSource size * params.count))) := by
  obtain ⟨-, hl, hb⟩ := h.history_out hdir hrank
  have hrequested := (hawait.requested trivial).2
  rw [sentBefore_all (targets_valid hrank params.direction).2 hrank] at hrequested
  rw [requestCount_out hdir, Nat.one_mul] at hrequested ⊢
  rw [hdir] at hawait hr
  have h0 : rank ≠ 0 := by simpa [targets] using hr
  refine ⟨h0, rfl, fun i hi => ?_⟩
  obtain ⟨s, k, hreq, hk⟩ := hrequested.only i hi
  have hs : s = 0 := by
    by_contra hs
    rw [hawait.recvs, hrecvs, hl, filled] at hk
    simp [targets, skips_zero, hs] at hk
  subst hs
  refine ⟨k, hreq, hk, ?_⟩
  rw [hawait.recvs, hrecvs, hl, filled] at hk
  have hsize : 0 < size := by omega
  rw [hawait.barriers, hbarriers, hb, Nat.succ_mul]
  simpa [targets, skips_zero, h0, hsize] using hk

/-- **A rank of 1-N** is careful at every call. -/
theorem safe_exchange_careful (hdir : params.direction = .dirOut) (hrank : rank < size) :
    Safe (trusting sha1sum params) (Careful sha1sum allocates params size rank)
      (exchange sha1sum size rank params) {}
      (Ended params size rank) := by
  refine (safe_rounds (careful_quiet sha1sum) hrank (fun n l hn h => ?_)
    fun n l l₁ l₂ _ h hr hrecvs hb hawait => hawait.careful sha1sum hdir hrank h hr hrecvs hb).bind
      fun _ l h => ?_
  · obtain ⟨hsends, -, hbarriers⟩ := h.history_out hdir hrank
    refine ⟨hbarriers ▸ hn, fun h0 d hd hsize => ?_⟩
    rw [hsends, if_pos ⟨h0, hd, hsize⟩, length_rounds, hbarriers]
  · have hthrough := h.through hdir hrank
    obtain ⟨hsends, hrecvs, -⟩ := h.history_out hdir hrank
    refine ⟨⟨rfl, hthrough⟩, fun content _ => safe_ite.2 ⟨fun h0 => ?_, fun h0 => ?_⟩⟩
    · -- rank 0
      have hturns : 1 + (size - 1) = size := by omega
      have hnone : ∀ s, l.recvs s = [] := fun s => by
        rw [hrecvs, if_neg fun hs => hs.2 h0]
      have hcollected :
        ∀ {j l'}, Collected j (l.upd (.load (sizeT (params.length * params.count))) content) l' →
          Through params size rank l' := by
        intro j l' h'
        refine ⟨h'.barriers.trans hthrough.barriers, fun _ d hd hsize => ?_,
          fun hne => absurd h0 hne⟩
        rw [h'.sends]
        exact hthrough.sends h0 d hd hsize
      refine (safe_verifyFrom_collected (sha1sum content) (fun j l' _ _ h' => ⟨h0, hcollected h'⟩)
        (fun j l' h1 h2 h' => ?_)
        (fun j l' format h' => ⟨h0, hcollected h'⟩) (size - 1) 1 _ (Nat.le_refl 1) hturns (.one _)).mono ?_
      · have hempty : l'.recvs j = [] := by
          rw [h'.recvs, if_neg (by omega), List.append_nil]
          exact hnone j
        refine ⟨h0, (hcollected h').upd _ _ rfl, j, h1, h2, ?_, ?_⟩
        · show some (j, (l'.recvs j).length) = some (j, 0)
          rw [hempty]
          rfl
        · show 0 < (post l'.recvs j _ j).length
          rw [post_apply, if_pos rfl, List.length_append]
          exact Nat.succ_pos _
      · rintro v l' ⟨i, hi, hle, h', hv⟩
        have hequal : Exact params → v = 0 ∧ i = size := by
          intro hexact
          rcases hv with hv | ⟨-, l'', bytes, hloaded, hheard, hne⟩
          · exact hv
          · refine absurd ?_ hne
            obtain rfl := hheard hexact content hloaded
            by_contra hdiff
            exact not_differsEarly_self _ ((strncmp_ne_zero (by simp) (by simp)).1 hdiff)
        refine ⟨hcollected h', fun _ hexact => (hequal hexact).1, fun _ hor s h1 h2 => ?_,
          fun hne => absurd h0 hne⟩
        have hlt : s < i := by
          rcases hor with hexact | htwo
          · rw [(hequal hexact).2]
            exact h2
          · rcases hv with hv | hv <;> omega
        have hdigest : (s, (l.recvs s).length) ∈ l'.complete := h'.digests s h1 hlt
        rwa [hnone s] at hdigest
    · -- the others
      have hloaded := hthrough.upd (.load (sizeT (params.length * params.count))) content rfl
      refine ⟨⟨rfl, h0, hloaded, content, rfl, rfl⟩, fun _ _ => ?_⟩
      refine ⟨hloaded.upd (.send _ _) () rfl, fun h1 => absurd h1 h0,
        fun h1 => absurd h1 h0, fun _ => ?_⟩
      show 0 < (post l.sends 0 _ 0).length
      rw [post_apply, if_pos rfl, List.length_append]
      exact Nat.succ_pos _

end sha1

end RdmaOpera.MpiExec
