import RdmaOpera.Lib.Growth
import RdmaOpera.MpiRank

/-!
# Messages and receives

What rank `s` posts for rank `d` and what `d` posts for `s` is the same list, `planned`: so the
`k`-th receive is matched with the `k`-th message, and both are the same block or both are the
digest.
-/

namespace RdmaOpera.MpiExec

open Lib Prog

/-! ## The two builds of `run` -/

section sha1
variable (sha1sum : List UInt8 → Digest)

def runOf (testSyncPacket : Bool) (size rank : Nat) (params : DccsParameters) : MProg Int :=
  if testSyncPacket then run sha1sum size rank params else runRandom sha1sum size rank params

/-- The parameters its rounds have. -/
def paramsOf (testSyncPacket : Bool) (params : DccsParameters) : DccsParameters :=
  if testSyncPacket then { params with count := 1, length := syncPacketHeader.length + 1 } else params

/-- Before the rounds there is nothing but the buffer, behind them it is freed. -/
theorem safe_runOf {m : Monitor Mpi Local} {ok : Local → MOp → Prop} {Q : Int → Local → Prop}
    (hupd : m.upd = Local.upd) (hspins : ∀ n, m.adm {} (.mallocRandom n) false → m.spins)
    (hmalloc : ∀ n, ok {} (.mallocRandom n))
    (hstore : ∀ offset bytes, ok {} (.store offset bytes)) (testSyncPacket : Bool) (size rank : Nat)
    (params : DccsParameters)
    (hrun : Safe m ok (exchange sha1sum size rank (paramsOf testSyncPacket params)) {} Q)
    (hfree : ∀ v l, Q v l → ok l .free) :
    Safe m ok (runOf sha1sum testSyncPacket size rank params) {} fun v l => v = 0 ∧ ∃ w, Q w l := by
  obtain ⟨upd, adm, spins⟩ := m
  subst hupd
  have hrest : Safe ⟨Local.upd, adm, spins⟩ ok (do
      let _ ← exchange sha1sum size rank (paramsOf testSyncPacket params)
      act .free
      pure 0 : MProg Int) {} fun v l => v = 0 ∧ ∃ w, Q w l :=
    hrun.bind fun w l hw => ⟨hfree w l hw, fun _ _ => ⟨rfl, w, hw⟩⟩
  cases testSyncPacket with
  | true =>
    refine ⟨hmalloc _, fun allocated hadm => safe_ite.2 ⟨fun hno => ?_, fun _ => ?_⟩⟩
    · obtain rfl : allocated = false := by simpa using hno
      exact hspins _ hadm
    · exact ⟨hstore _ _, fun _ _ => ⟨hstore _ _, fun _ _ => hrest⟩⟩
  | false =>
    refine ⟨hmalloc _, fun allocated hadm => safe_ite.2 ⟨fun hno => ?_, fun _ => hrest⟩⟩
    obtain rfl : allocated = false := by simpa using hno
    exact hspins _ hadm

end sha1

/-! ## The plan of one ordered pair -/

/-- All that `s` ever sends to `d`. -/
def planned (params : DccsParameters) (size s d : Nat) : List Place :=
  (if talks params.direction s d ∧ s < size ∧ d < size then rounds params params.repeat_ else []) ++
    if d = 0 ∧ 1 ≤ s ∧ s < size then [.array shaDigestLength] else []

structure OnPlan (params : DccsParameters) (size rank : Nat) (l : Local) : Prop where
  sends : ∀ d, l.sends d <+: planned params size rank d
  recvs : ∀ s, l.recvs s <+: planned params size s rank

variable {params : DccsParameters} {size rank : Nat}

theorem onPlan_nil (params : DccsParameters) (size rank : Nat) : OnPlan params size rank {} :=
  ⟨fun _ => List.nil_prefix, fun _ => List.nil_prefix⟩

theorem prefix_post {α : Type} (f : Nat → List α) (host : Nat) (x : α) (h : Nat) :
    f h <+: post f host x h := by
  rw [post_apply]
  split
  · exact List.prefix_append _ _
  · exact List.prefix_rfl

theorem sends_upd (l : Local) (op : MOp) (a : MOp.Ans op) (d : Nat) :
    l.sends d <+: (l.upd op a).sends d := by
  cases op with
  | isend offset length dest request => exact prefix_post _ _ _ _
  | send data dest => exact prefix_post _ _ _ _
  | _ => exact List.prefix_rfl

theorem recvs_upd (l : Local) (op : MOp) (a : MOp.Ans op) (s : Nat) :
    l.recvs s <+: (l.upd op a).recvs s := by
  cases op with
  | irecv offset length src request => exact prefix_post _ _ _ _
  | recvPost length src => exact prefix_post _ _ _ _
  | _ => exact List.prefix_rfl

theorem OnPlan.of_upd {l : Local} {op : MOp} {a : MOp.Ans op}
    (h : OnPlan params size rank (l.upd op a)) : OnPlan params size rank l :=
  ⟨fun d => (sends_upd l op a d).trans (h.sends d), fun s => (recvs_upd l op a s).trans (h.recvs s)⟩

/-! ## One rank keeps to the plan -/

/-- The history of a rank as it is, with nothing known of the answers. -/
def history : Monitor Mpi Local := watching False fun _ _ => True

theorem Advanced.onPlan {strict : Prop} {l : Local}
    (h : Advanced strict params rank size params.repeat_ {} l) (hrank : rank < size) :
    (∀ d, l.sends d =
      if talks params.direction rank d ∧ rank < size ∧ d < size then rounds params params.repeat_
      else []) ∧
    ∀ s, l.recvs s =
      if talks params.direction s rank ∧ s < size ∧ rank < size then rounds params params.repeat_
      else [] := by
  constructor
  · intro d
    rw [h.sends]
    simp [hrank]
  · intro s
    rw [h.recvs]
    simp [hrank]

theorem safe_exchange_planned (sha1sum : List UInt8 → Digest) (hrank : rank < size) :
    Safe history (fun _ _ => True) (exchange sha1sum size rank params) {} fun _ l =>
      OnPlan params size rank l := by
  refine (safe_rounds (fun _ _ _ => trivial) hrank (fun _ _ _ _ => trivial)
    fun _ _ _ _ _ _ _ _ _ _ => trivial).bind fun _ l h => ?_
  obtain ⟨hsends, hrecvs⟩ := h.onPlan hrank
  refine ⟨trivial, fun content _ => safe_ite.2 ⟨fun h0 => ?_, fun h0 => ?_⟩⟩
  · -- rank 0 receives
    subst h0
    have hturns : 1 + (size - 1) = size := by omega
    refine (safe_verifyFrom_collected (sha1sum content) (fun _ _ _ _ _ => trivial)
      (fun _ _ _ _ _ => trivial) (fun _ _ _ _ => trivial)
      (size - 1) 1 _ (Nat.le_refl 1) hturns (.one _)).mono ?_
    rintro v l' ⟨i, -, hi, hl', -⟩
    refine ⟨fun d => ?_, fun s => ?_⟩
    · rw [hl'.sends]
      show l.sends d <+: _
      rw [hsends]
      exact List.prefix_append _ _
    · rw [hl'.recvs]
      show l.recvs s ++ _ <+: _
      rw [hrecvs, planned]
      by_cases hs : 1 ≤ s ∧ s < i
      · have hs' : 1 ≤ s ∧ s < size := ⟨hs.1, by omega⟩
        simp [hs, hs']
      · rw [if_neg hs, List.append_nil]
        exact List.prefix_append _ _
  · -- the others send
    have h1 : 1 ≤ rank := by omega
    refine ⟨trivial, fun _ _ => ⟨fun d => ?_, fun s => ?_⟩⟩
    · show post l.sends 0 _ d <+: _
      rw [post_apply, hsends, planned]
      by_cases hd : d = 0
      · simp [hd, h1, hrank]
      · simp [hd]
    · show l.recvs s <+: _
      rw [hrecvs]
      exact List.prefix_append _ _

theorem history_admits (l : Local) (op : MOp) (a : MOp.Ans op) : history.adm l op a := by
  cases op with
  | isend | irecv | testall => exact fun h => h.elim
  | _ => trivial

theorem exists_answer (op : MOp) : Nonempty (MOp.Ans op) := by
  cases op with
  | recvWait => exact ⟨([] : List UInt8)⟩
  | load length => exact ⟨([] : List UInt8)⟩
  | mallocRandom size => exact ⟨true⟩
  | getCycles => exact ⟨(0 : UInt64)⟩
  | _ => exact ⟨()⟩

/-- Every call of the rounds and the checksum leaves the rank on its plan. -/
theorem safe_exchange_keeps (sha1sum : List UInt8 → Digest) (hrank : rank < size) :
    Safe history (fun l op => ∀ a, OnPlan params size rank (l.upd op a)) (exchange sha1sum size rank params) {}
      fun _ l => OnPlan params size rank l := by
  have hdone : Safe history (fun _ _ => True) (exchange sha1sum size rank params) {} fun _ l =>
    OnPlan params size rank l :=
    safe_exchange_planned sha1sum hrank
  have hkeeps := hdone.anticipate id (fun l op _ => (exists_answer op).elim
    fun a => ⟨a, history_admits l op a⟩) (fun _ _ _ h => h.of_upd) fun _ _ h => h
  exact hkeeps.2.relax rfl (fun _ _ _ h => h) id fun l op h a => h.2 a (history_admits l op a)

/-- So does every call of either build. -/
theorem safe_runOf_planned (sha1sum : List UInt8 → Digest) (testSyncPacket : Bool)
    (params : DccsParameters) (hrank : rank < size) :
    Safe history.lenient (fun l op => ∀ a,
      OnPlan (paramsOf testSyncPacket params) size rank (l.upd op a))
      (runOf sha1sum testSyncPacket size rank params) {} fun _ _ => True := by
  have hnil := onPlan_nil (paramsOf testSyncPacket params) size rank
  have hexchange :
    Safe history.lenient (fun l op => ∀ a,
    OnPlan (paramsOf testSyncPacket params) size rank (l.upd op a))
      (exchange sha1sum size rank (paramsOf testSyncPacket params)) {} fun _ l =>
        OnPlan (paramsOf testSyncPacket params) size rank l :=
    (safe_exchange_keeps sha1sum hrank).relax rfl (fun _ _ _ h => h) (fun h => h.elim) fun _ _ h => h
  exact (safe_runOf sha1sum rfl (fun _ _ => trivial) (fun _ _ => hnil)
    (fun _ _ _ => hnil) testSyncPacket size rank params hexchange
    fun _ _ h _ => h).mono fun _ _ _ => trivial

/-! ## All ranks -/

/-- Nothing but what is planned has been posted, and the pairs are in step. -/
structure Aligned (params : DccsParameters) (size : Nat) (w : World) : Prop where
  onPlan : ∀ r < size, OnPlan params size r (w.loc r)
  idle : ∀ r, size ≤ r → w.loc r = {}
  pairs : ∀ s d, ∃ n ≤ ((w.loc s).sends d).length, n ≤ ((w.loc d).recvs s).length ∧
    w.pairs (s, d) = inStep n

namespace Aligned

variable {params : DccsParameters} {w w' : World} {hint : Hint}

theorem start (params : DccsParameters) (size : Nat) (mem : Nat → Nat → UInt8) :
    Aligned params size { mem } where
  onPlan r _ := onPlan_nil params size r
  idle _ _ := rfl
  pairs _ _ := ⟨0, Nat.le_refl 0, Nat.le_refl 0, rfl⟩

theorem called (h : Aligned params size w) {r : Nat} (hr : r < size) {op : MOp} {a : MOp.Ans op}
    (hplan : OnPlan params size r ((w.loc r).upd op a)) :
    Aligned params size (w.called hint r op a) where
  onPlan q hq := by
    rw [World.called_loc]
    split
    · rename_i heq
      rwa [heq]
    · exact h.onPlan q hq
  idle q hq := by
    rw [World.called_loc, if_neg (by omega)]
    exact h.idle q hq
  pairs s d := by
    obtain ⟨n, hs, hd, hpairs⟩ := h.pairs s d
    have hsend : ((w.loc s).sends d).length ≤ (((w.called hint r op a).loc s).sends d).length := by
      rw [World.called_loc]
      split
      · rename_i heq
        rw [heq]
        exact (sends_upd _ op a d).length_le
      · exact Nat.le_refl _
    have hrecv : ((w.loc d).recvs s).length ≤ (((w.called hint r op a).loc d).recvs s).length := by
      rw [World.called_loc]
      split
      · rename_i heq
        rw [heq]
        exact (recvs_upd _ op a s).length_le
      · exact Nat.le_refl _
    exact ⟨n, hs.trans hsend, hd.trans hrecv, by rw [World.called_pairs]; exact hpairs⟩

theorem tick (h : Aligned params size w) {t : Tick} (ht : w.tick t = some w') :
    Aligned params size w' := by
  have hloc := World.tick_loc ht
  refine ⟨fun r hr => ?_, fun r hr => ?_, fun s d => ?_⟩
  · rw [hloc]
    exact h.onPlan r hr
  · rw [hloc]
    exact h.idle r hr
  · rw [hloc]
    obtain ⟨n, hs, hd, hpairs⟩ := h.pairs s d
    rcases World.tick_pairs ht s d with heq | hnext
    · exact ⟨n, hs, hd, heq.trans hpairs⟩
    · rw [hpairs, matchNext_inStep] at hnext
      split at hnext
      · rename_i hlt
        exact ⟨n + 1, hlt.1, hlt.2, (Option.some.inj hnext).symm⟩
      · cases hnext

end Aligned

/-- In every state of either build. -/
theorem aligned_reachable (sha1sum : List UInt8 → Digest) (testSyncPacket : Bool) (size : Nat)
    (params : DccsParameters) {mem : Nat → Nat → UInt8} {c : Conf (mpi size) Int}
    (hc : Reachable AnyMpiStep
      (launch mem fun rank : Fin size => runOf sha1sum testSyncPacket size rank params) c) :
    Aligned (paramsOf testSyncPacket params) size c.st := by
  have hsafe : ∀ rank : Fin size, Safe history.lenient
      (fun l op => ∀ a, OnPlan (paramsOf testSyncPacket params) size rank (l.upd op a))
      (runOf sha1sum testSyncPacket size rank params) {} fun _ _ => True :=
    fun rank => safe_runOf_planned sha1sum testSyncPacket params rank.isLt
  refine (mpi_invariant (m := history.lenient) rfl (fun rank hint op a w _ h hok ha => ?_)
    (fun t w w' _ h ht => h.tick ht)
    (Aligned.start _ size mem) hsafe hc).1
  exact ⟨history_admits (w.loc rank) op a, h.called rank.isLt (hok a)⟩

/-! ## Matching -/

/-- The rounds of the two ranks are in balance: what `s` posts for `d` in a round is what `d` posts
for `s`. -/
def RoundsBalanced (params : DccsParameters) (size s d : Nat) : Prop :=
  ∀ (r : Nat) (l l' k k' : Local), Reach history (round size s params r ()) l (.ret ()) l' →
    Reach history (round size d params r ()) k (.ret ()) k' →
    ∃ places, l'.sends d = l.sends d ++ places ∧ k'.recvs s = k.recvs s ++ places

/-- The `k`-th pair is that of the `k`-th message with the `k`-th receive, and their places are the
same. -/
def InStep (w : World) (s d : Nat) : Prop :=
  ∀ (k : Nat) (x : Nat × Nat), (w.pairs (s, d))[k]? = some x →
    x = (k, k) ∧ ∃ place, ((w.loc s).sends d)[k]? = some place ∧
      ((w.loc d).recvs s)[k]? = some place

theorem roundsBalanced {params : DccsParameters} {size s d : Nat} (hs : s < size) (hd : d < size) :
    RoundsBalanced params size s d := by
  intro r l l' k k' hsend hrecv
  have hround : ∀ {rank : Nat}, rank < size →
    ∀ l₀, Safe history (fun _ _ => True) (round size rank params r ()) l₀
      fun _ l => Advanced False params rank size 1 l₀ l :=
    fun hrank l₀ => safe_round (fun _ _ _ => trivial) hrank trivial (fun _ _ _ _ _ _ => trivial) r
  have h := (hround hs l).reach hsend
  have h' := (hround hd k).reach hrecv
  refine ⟨if talks params.direction s d then rounds params 1 else [], ?_, ?_⟩
  · rw [h.sends]
    simp [hd]
  · rw [h'.recvs]
    simp [hs]

theorem Aligned.inStep {params : DccsParameters} {size : Nat} {w : World}
    (h : Aligned params size w) (s d : Nat) : InStep w s d := by
  intro k x hx
  obtain ⟨n, hsent, hposted, hpairs⟩ := h.pairs s d
  rw [hpairs, getElem?_inStep] at hx
  split at hx
  · rename_i hk
    cases hx
    refine ⟨rfl, ?_⟩
    have hs : s < size := by
      by_contra hge
      rw [h.idle s (by omega)] at hsent
      exact absurd hsent (by show ¬ n ≤ 0; omega)
    have hd : d < size := by
      by_contra hge
      rw [h.idle d (by omega)] at hposted
      exact absurd hposted (by show ¬ n ≤ 0; omega)
    have hsends := (h.onPlan s hs).sends d
    have hrecvs := (h.onPlan d hd).recvs s
    have hmessage : k < ((w.loc s).sends d).length := by omega
    have hreceive : k < ((w.loc d).recvs s).length := by omega
    refine ⟨((w.loc s).sends d)[k], List.getElem?_eq_getElem hmessage, ?_⟩
    rw [List.getElem?_eq_getElem hreceive, hsends.getElem hmessage, hrecvs.getElem hreceive]
  · cases hx

/-- **Messages and receives match**, in every round and over every run. -/
theorem messages_matched (sha1sum : List UInt8 → Digest) (testSyncPacket : Bool) (size : Nat)
    (params : DccsParameters) :
    (∀ s d, s < size → d < size → RoundsBalanced (paramsOf testSyncPacket params) size s d) ∧
      ∀ mem c, Reachable AnyMpiStep
      (launch mem fun rank : Fin size => runOf sha1sum testSyncPacket size rank params) c →
        ∀ s d, InStep c.st s d :=
  ⟨fun _ _ hs hd => roundsBalanced hs hd,
    fun _ _ hc => (aligned_reachable sha1sum testSyncPacket size params hc).inStep⟩

/-- The next `n` calls of a rank. -/
def mcalls {size : Nat} (rank : Fin size) (n : Nat) : List (Label (mpi size)) :=
  List.replicate n (.call rank ({} : Hint))

def ticks (size : Nat) (ts : List Tick) : List (Label (mpi size)) := ts.map fun t => .tick t

/-- Rank 1 sends its block and its digest to rank 0. -/
def twoMatched : List (Label (mpi 2)) :=
  mcalls 1 4 ++ mcalls 0 4 ++ mcalls 1 5 ++ mcalls 0 3 ++
    ticks 2 [.pair 1 0, .read 1 0 0, .deliver 1 0 0] ++ mcalls 0 5 ++
    ticks 2 [.pair 1 0]

def towardsRank0 : DccsParameters := { oneSend with direction := .dirIn }

/-- The block with the block, the digest with the digest. -/
theorem messages_matched_two : ∃ c : Conf (mpi 2) Int,
    Reachable AnyMpiStep (launch (fun _ _ => 0) fun rank : Fin 2 =>
      runOf (fun _ => Vector.replicate 20 0) true 2 rank towardsRank0) c ∧
    World.pairs c.st (1, 0) = [(0, 0), (1, 1)] ∧ InStep c.st 1 0 := by
  have hrun : ((launch (fun _ _ => 0) fun rank : Fin 2 => runOf
    (fun _ => Vector.replicate 20 0) true 2 rank towardsRank0).follow
      twoMatched).bind (fun c => some (World.pairs c.st (1, 0))) = some [(0, 0), (1, 1)] := by
    decide +kernel
  obtain ⟨c, hreach, hpairs⟩ := Reachable.of_follow (fun l _ w => (trivial : AnyMpiStep l w)) hrun
  exact ⟨c, hreach, Option.some.inj hpairs,
    (messages_matched _ true 2 towardsRank0).2 _ c hreach 1 0⟩

end RdmaOpera.MpiExec
