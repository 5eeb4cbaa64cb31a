import RdmaOpera.MpiMatching

/-!
# Messages in every direction

What holds of the ranks and of MPI whichever way the messages go: `Orderly` is what a rank asks of
its calls, `Flow` is where the messages are. Neither says anything of what the messages hold.
-/

namespace RdmaOpera.MpiExec

open Lib Prog

/-! ## One rank -/

/-- Behind the round loop. -/
structure Passed (params : DccsParameters) (size rank : Nat) (l : Local) : Prop where
  barriers : l.barriers = params.repeat_
  sends : ∀ d, talks params.direction rank d → d < size →
    params.repeat_ * params.count ≤ (l.sends d).length
  complete : ∀ s, talks params.direction s rank → s < size →
    ∀ k < params.repeat_ * params.count, (s, k) ∈ l.complete

/-- The number of the digest that rank `s` sends to rank 0, among its messages to rank 0. -/
def digestAt (params : DccsParameters) (s : Nat) : Nat :=
  if talks params.direction s 0 then params.repeat_ * params.count else 0

/-- A rank that has returned. -/
structure Finished (params : DccsParameters) (size rank : Nat) (l : Local) : Prop where
  passed : Passed params size rank l
  sent : rank ≠ 0 → digestAt params rank < (l.sends 0).length

/-- The receives of `recv_messages`, and the size that `MPI_Testall` is given. -/
def receiveCount (params : DccsParameters) (size rank : Nat) : Nat :=
  requestCount (targets rank params.direction).recvSource size * params.count

/-- `int` holds the requests of one round, whoever posts them. -/
def Countable (params : DccsParameters) (size : Nat) : Prop := (size - 1) * params.count < 2 ^ 31

theorem Countable.receives {params : DccsParameters} {size r : Nat} (h : Countable params size)
    (hr : r < size) (hrecv : (targets r params.direction).shouldRecv = true) :
    receiveCount params size r < 2 ^ 31 :=
  (Nat.mul_le_mul_right _ ((requestCount_le hr params.direction).2 hrecv)).trans_lt h

/-- A rank that waits for its receives has sent the blocks of the round. -/
structure Waits (params : DccsParameters) (size rank : Nat) (l : Local) : Prop where
  sent : ∀ d, talks params.direction rank d → d < size →
    l.barriers * params.count ≤ (l.sends d).length
  posted : ∀ i < receiveCount params size rank, ∃ s k, l.requests i = some (s, k) ∧
    talks params.direction s rank ∧ s < size ∧ k < (l.recvs s).length ∧
    k < l.barriers * params.count

/-- Rank 0 waits for the digest of rank `s`. -/
structure Collects (params : DccsParameters) (size s : Nat) (l : Local) : Prop where
  pos : 1 ≤ s
  lt : s < size
  waiting : l.waiting = some (s, digestAt params s)
  posted : digestAt params s < (l.recvs s).length

/-- What a rank asks of its calls; `allocates` tells `run` from its rounds alone. -/
def Orderly (allocates : Prop) (params : DccsParameters) (size rank : Nat) (l : Local) : MOp → Prop
  | .barrierEnter =>
    l.barriers < params.repeat_ ∧
      (∀ d, talks params.direction rank d → d < size →
        (l.sends d).length = l.barriers * params.count) ∧
      ∀ s, talks params.direction s rank → s < size →
        ∀ k < l.barriers * params.count, (s, k) ∈ l.complete
  | .testall totalCount =>
    totalCount = cInt (receiveCount params size rank) ∧
      (targets rank params.direction).shouldRecv = true ∧ Waits params size rank l
  | .load _ | .logError _ => Passed params size rank l
  | .send _ dest => dest = 0 ∧ rank ≠ 0 ∧ Passed params size rank l
  | .recvPost length _ => length = shaDigestLength ∧ rank = 0 ∧ Passed params size rank l
  | .recvWait => rank = 0 ∧ Passed params size rank l ∧ ∃ s, Collects params size s l
  | .isend _ length _ request | .irecv _ length _ request =>
    length = cInt params.length ∧ Counts ((size - 1) * params.count) request
  | .mallocRandom _ | .store _ _ => allocates
  | .free => allocates ∧ Passed params size rank l
  | .requestFree _ | .barrierLeave | .getCycles | .logRound _ _ _ _ _ => True

section rank
variable {allocates : Prop} {params : DccsParameters} {size rank : Nat}
  {heard : Local → List UInt8 → Prop}

theorem orderly_quiet (l : Local) (op : MOp) (h : Quiet params ((size - 1) * params.count) op) :
    Orderly allocates params size rank l op := by
  cases op with
  | isend | irecv => exact h
  | requestFree | barrierLeave | getCycles | logRound => trivial
  | _ => exact h.elim

/-- The history of `n` rounds from the start. -/
theorem Advanced.history {strict : Prop} {n : Nat} {l : Local}
    (h : Advanced strict params rank size n {} l) :
    (∀ d, l.sends d =
        if talks params.direction rank d ∧ d < size then rounds params n else []) ∧
      (∀ s, l.recvs s =
        if talks params.direction s rank ∧ s < size then rounds params n else []) ∧
      l.barriers = n :=
  ⟨fun d => by simpa using h.sends d, fun s => by simpa using h.recvs s, by simpa using h.barriers⟩

theorem Advanced.sent {strict : Prop} {n : Nat} {l : Local}
    (h : Advanced strict params rank size n {} l) {d : Nat} (hd : talks params.direction rank d)
    (hsize : d < size) : (l.sends d).length = n * params.count := by
  rw [h.history.1 d, if_pos ⟨hd, hsize⟩, length_rounds]

/-- What a rank has received when it enters the next barrier, or leaves the loop. -/
theorem Advanced.completed {n : Nat} {l : Local} (h : Advanced True params rank size n {} l)
    {s : Nat} (hs : talks params.direction s rank) (hsize : s < size) :
    ∀ k < n * params.count, (s, k) ∈ l.complete := by
  intro k hk
  refine h.arrived trivial s k (Nat.zero_le k) ?_
  rwa [h.history.2.1 s, if_pos ⟨hs, hsize⟩, length_rounds]

theorem Advanced.passed {l : Local} (h : Advanced True params rank size params.repeat_ {} l) :
    Passed params size rank l where
  barriers := h.history.2.2
  sends _ hd hsize := (h.sent hd hsize).ge
  complete _ hs hsize := h.completed hs hsize

theorem Passed.upd {l : Local} (h : Passed params size rank l) (op : MOp) (a : MOp.Ans op)
    (hb : (l.upd op a).barriers = l.barriers) : Passed params size rank (l.upd op a) where
  barriers := hb.trans h.barriers
  sends d hd hsize := (h.sends d hd hsize).trans (sends_upd l op a d).length_le
  complete s hs hsize k hk := by
    have hold := h.complete s hs hsize k hk
    cases op with
    | testall totalCount => exact List.mem_append_left _ hold
    | recvWait => exact List.mem_append_left _ hold
    | _ => exact hold

/-- What `recv_messages` waits for are the blocks of this round and of those before. -/
theorem Awaiting.waits {n : Nat} {l l₁ l₂ : Local} (hrank : rank < size)
    (h : Advanced True params rank size n {} l)
    (hr : (targets rank params.direction).shouldRecv = true)
    (hsends : ∀ d, l₁.sends d = l.sends d ++
      if talks params.direction rank d ∧ d < size then rounds params 1 else [])
    (hrecvs : l₁.recvs = l.recvs) (hbarriers : l₁.barriers = l.barriers + 1)
    (hawait : Awaiting True params (targets rank params.direction).recvSource rank size l₁
      params.count 0 l₂) : Waits params size rank l₂ := by
  obtain ⟨-, hl, hb⟩ := h.history
  have hb₂ : l₂.barriers = n + 1 := by rw [hawait.barriers, hbarriers, hb]
  constructor
  · intro d hd hsize
    rw [hawait.sends, hsends, if_pos ⟨hd, hsize⟩, List.length_append, length_rounds,
      h.sent hd hsize, hb₂, Nat.succ_mul, Nat.one_mul]
  · intro i hi
    have hrequested := (hawait.requested trivial).2
    rw [sentBefore_all (targets_valid hrank params.direction).2 hrank] at hrequested
    obtain ⟨s, k, hreq, hk⟩ := hrequested.only i hi
    have hk' := hk
    rw [hawait.recvs, hrecvs, hl, filled] at hk'
    by_cases hs : talks params.direction s rank ∧ s < size
    · refine ⟨s, k, hreq, hs.1, hs.2, hk, ?_⟩
      rw [if_pos hs, List.length_append, length_rounds] at hk'
      rw [hb₂, Nat.succ_mul]
      split at hk'
      · simp only [Nat.not_lt_zero, if_false, length_blocks] at hk'
        exact hk'
      · simp only [List.length_nil] at hk'
        omega
    · -- such a rank is skipped
      have hskip : ¬ (¬ skips (targets rank params.direction).recvSource rank s ∧ s < size) :=
        fun hno => hs ⟨(receives_iff params.direction s rank).1 ⟨hr, hno.1⟩, hno.2⟩
      rw [if_neg hs, if_neg hskip] at hk'
      exact absurd hk' (Nat.not_lt_zero k)

/-- **One rank** is orderly at every call. -/
theorem safe_exchange_orderly (sha1sum : List UInt8 → Digest) (hrank : rank < size) :
    Safe (watching True heard) (Orderly allocates params size rank)
      (exchange sha1sum size rank params) {} fun _ l => Finished params size rank l := by
  refine (safe_rounds_sent orderly_quiet hrank (fun n l hn h => ?_)
    fun n l l₁ l₂ _ h hr hsends hrecvs hb hawait => ?_).bind fun _ l h => ?_
  · have hb := h.history.2.2
    refine ⟨hb ▸ hn, fun d hd hsize => ?_, fun s hs hsize => ?_⟩
    · rw [hb, h.sent hd hsize]
    · rw [hb]
      exact h.completed hs hsize
  · exact ⟨rfl, hr, hawait.waits hrank h hr hsends hrecvs hb⟩
  · have hpassed := h.passed
    obtain ⟨hsends, hrecvs, -⟩ := h.history
    refine ⟨hpassed, fun content _ => safe_ite.2 ⟨fun h0 => ?_, fun h0 => ?_⟩⟩
    · subst h0
      have hturns : 1 + (size - 1) = size := by omega
      -- the digest follows the blocks
      have hlength : ∀ s, s < size → (l.recvs s).length = digestAt params s := by
        intro s hs
        rw [hrecvs, digestAt]
        by_cases htalks : talks params.direction s 0
        · rw [if_pos ⟨htalks, hs⟩, if_pos htalks, length_rounds]
        · rw [if_neg fun h => htalks h.1, if_neg htalks]
          rfl
      have hcollected : ∀ {j l'},
          Collected j (l.upd (.load (sizeT (params.length * params.count))) content) l' →
            Passed params size 0 l' := by
        intro j l' h'
        refine ⟨h'.barriers.trans hpassed.barriers, fun d hd hsize => ?_,
          fun s hs hsize k hk => h'.complete _ (hpassed.complete s hs hsize k hk)⟩
        rw [h'.sends]
        exact hpassed.sends d hd hsize
      refine (safe_verifyFrom_collected (sha1sum content)
        (fun j l' _ _ h' => ⟨rfl, rfl, hcollected h'⟩) (fun j l' h1 h2 h' => ?_)
        (fun j l' format h' => hcollected h') (size - 1) 1 _ (Nat.le_refl 1) hturns (.one _)).mono ?_
      · have hrecv : (l'.recvs j).length = digestAt params j := by
          rw [h'.recvs, if_neg (by omega), List.append_nil]
          exact hlength j h2
        refine ⟨rfl, (hcollected h').upd _ _ rfl, j, h1, h2, ?_, ?_⟩
        · show some (j, (l'.recvs j).length) = some (j, digestAt params j)
          rw [hrecv]
        · show digestAt params j < (post l'.recvs j _ j).length
          rw [post_apply, if_pos rfl, List.length_append, hrecv]
          exact Nat.lt_succ_self _
      · rintro v l' ⟨i, -, -, h', -⟩
        exact ⟨hcollected h', fun hne => absurd rfl hne⟩
    · have hloaded := hpassed.upd (.load (sizeT (params.length * params.count))) content rfl
      refine ⟨⟨rfl, h0, hloaded⟩, fun _ _ => ⟨hloaded.upd (.send _ _) () rfl, fun _ => ?_⟩⟩
      show digestAt params rank < (post l.sends 0 _ 0).length
      rw [post_apply, if_pos rfl, List.length_append, hsends]
      by_cases htalks : talks params.direction rank 0
      · have hzero : 0 < size := by omega
        rw [if_pos ⟨htalks, hzero⟩, length_rounds, digestAt, if_pos htalks]
        exact Nat.lt_succ_self _
      · rw [digestAt, if_neg htalks]
        exact Nat.succ_pos _

/-- What holds of a rank wherever it stands: it has sent the blocks of the rounds behind it, and
received theirs. -/
structure InRound (params : DccsParameters) (size rank : Nat) (l : Local) : Prop where
  barriers : l.barriers ≤ params.repeat_
  ahead : ∀ d, talks params.direction rank d → d < size →
    (l.barriers - 1) * params.count ≤ (l.sends d).length
  behind : ∀ s, talks params.direction s rank → s < size →
    ∀ k < (l.barriers - 1) * params.count, (s, k) ∈ l.complete

theorem inRound_nil (params : DccsParameters) (size rank : Nat) : InRound params size rank {} where
  barriers := Nat.zero_le _
  ahead _ _ _ := by simp
  behind _ _ _ k hk := by simp at hk

theorem complete_upd (l : Local) (op : MOp) (a : MOp.Ans op) :
    ∀ x ∈ l.complete, x ∈ (l.upd op a).complete := by
  intro x hx
  cases op with
  | testall totalCount => exact List.mem_append_left _ hx
  | recvWait => exact List.mem_append_left _ hx
  | _ => exact hx

theorem InRound.upd {l : Local} (h : InRound params size rank l) {op : MOp}
    (hok : Orderly allocates params size rank l op) (a : MOp.Ans op) :
    InRound params size rank (l.upd op a) := by
  have hsame : (l.upd op a).barriers = l.barriers → InRound params size rank (l.upd op a) := by
    intro hb
    refine ⟨hb ▸ h.barriers, fun d hd hsize => ?_, fun s hs hsize k hk => ?_⟩
    · rw [hb]
      exact (h.ahead d hd hsize).trans (sends_upd l op a d).length_le
    · rw [hb] at hk
      exact complete_upd l op a _ (h.behind s hs hsize k hk)
  cases op with
  | barrierEnter =>
    obtain ⟨hlt, hsent, hreceived⟩ := hok
    refine ⟨hlt, fun d hd hsize => ?_, fun s hs hsize k hk => hreceived s hs hsize k ?_⟩
    · show (l.barriers + 1 - 1) * params.count ≤ (l.sends d).length
      rw [Nat.add_sub_cancel]
      exact (hsent d hd hsize).ge
    · have hk : k < (l.barriers + 1 - 1) * params.count := hk
      rwa [Nat.add_sub_cancel] at hk
  | _ => exact hsame rfl

end rank

/-! ## Where the messages are -/

structure Flow (params : DccsParameters) (size : Nat) (w : World) : Prop where
  aligned : Aligned params size w
  read : ∀ s d k bytes, w.read (s, d, k) = some bytes →
    ∃ place, ((w.loc s).sends d)[k]? = some place ∧ bytes.length = place.length
  arrays : ∀ s d k n, ((w.loc s).sends d)[k]? = some (.array n) → (w.read (s, d, k)).isSome
  got : ∀ s d k bytes, w.got (s, d, k) = some bytes →
    k < (w.pairs (s, d)).length ∧ w.read (s, d, k) = some bytes
  complete : ∀ s d k, (s, k) ∈ (w.loc d).complete → (w.got (s, d, k)).isSome

namespace Flow

variable {params : DccsParameters} {size : Nat} {w w' : World} {hint : Hint} {r : Nat} {op : MOp}

theorem start (params : DccsParameters) (size : Nat) (mem : Nat → Nat → UInt8) :
    Flow params size { mem } where
  aligned := .start params size mem
  read _ _ _ _ h := nomatch h
  arrays _ _ _ _ h := nomatch h
  got _ _ _ _ h := nomatch h
  complete _ _ _ h := nomatch h

/-- A message whose place is a block has been posted by `MPI_Isend`, and one whose place is an array
by `MPI_Send`. -/
theorem sends_called (w : World) (hint : Hint) (r : Nat) (op : MOp) (a : MOp.Ans op) (s d : Nat) :
    ((w.called hint r op a).loc s).sends d = (w.loc s).sends d ∨
      s = r ∧ ∃ place, ((w.called hint r op a).loc s).sends d = (w.loc s).sends d ++ [place] ∧
        ∀ n, place = .array n → ∃ data, op = .send data d ∧ n = data.length := by
  rw [World.called_loc]
  by_cases hs : s = r
  · subst hs
    rw [if_pos rfl]
    cases op with
    | isend offset length dest request =>
      show post (w.loc s).sends dest _ d = _ ∨ _ ∧ ∃ place, post (w.loc s).sends dest _ d = _ ∧ _
      rw [post_apply]
      split
      · exact .inr ⟨rfl, _, rfl, fun n hn => nomatch hn⟩
      · exact .inl rfl
    | send data dest =>
      show post (w.loc s).sends dest _ d = _ ∨ _ ∧ ∃ place, post (w.loc s).sends dest _ d = _ ∧ _
      rw [post_apply]
      split
      · rename_i hd
        subst hd
        exact .inr ⟨rfl, _, rfl, fun n hn => ⟨data, rfl, (Place.array.inj hn).symm⟩⟩
      · exact .inl rfl
    | _ => exact .inl rfl
  · rw [if_neg hs]
    exact .inl rfl

/-- Only `MPI_Send` has its message read out at once. -/
theorem read_called (w : World) (hint : Hint) (r : Nat) (op : MOp) (a : MOp.Ans op)
    (x : Nat × Nat × Nat) :
    (w.called hint r op a).read x = w.read x ∨
      ∃ data dest, op = .send data dest ∧ x = (r, dest, ((w.loc r).sends dest).length) ∧
        (w.called hint r op a).read x = some data := by
  cases op with
  | send data dest =>
    show Function.update w.read _ _ x = _ ∨ ∃ _ _, _ ∧ _ ∧ Function.update w.read _ _ x = _
    rw [Function.update_apply]
    split
    · rename_i hx
      exact .inr ⟨data, dest, rfl, hx, rfl⟩
    · exact .inl rfl
  | mallocRandom size => cases hf : hint.fresh <;> exact .inl (by simp [World.called, World.effect, hf])
  | _ => exact .inl rfl

theorem got_called (w : World) (hint : Hint) (r : Nat) (op : MOp) (a : MOp.Ans op) :
    (w.called hint r op a).got = w.got := by
  cases op with
  | mallocRandom size => cases hf : hint.fresh <;> simp [World.called, World.effect, hf]
  | _ => rfl

/-- What an answer says to be complete has arrived. -/
theorem complete_called {a : MOp.Ans op} (ha : w.answer size hint r op = some a) {s d k : Nat}
    (hk : (s, k) ∈ ((w.called hint r op a).loc d).complete) :
    (s, k) ∈ (w.loc d).complete ∨ (w.got (s, d, k)).isSome := by
  rw [World.called_loc] at hk
  split at hk
  · rename_i hd
    subst hd
    cases op with
    | testall totalCount =>
      simp only [World.answer] at ha
      split at ha
      · rename_i htest
        refine (List.mem_append.1 hk).imp_right fun hk => ?_
        obtain ⟨i, hi, hreq⟩ := List.mem_filterMap.1 hk
        have hany := htest.2 i (List.mem_range.1 hi)
        rwa [hreq] at hany
      · cases ha
    | recvWait =>
      refine (List.mem_append.1 hk).imp_right fun hk => ?_
      have hwaiting := Option.mem_toList.1 hk
      have hgot : (w.loc d).waiting.bind (fun x => w.got (x.1, d, x.2)) = some a := ha
      rw [hwaiting] at hgot
      exact Option.isSome_of_mem hgot
    | _ => exact .inl hk
  · exact .inl hk

theorem called (h : Flow params size w) (hr : r < size) {a : MOp.Ans op}
    (ha : w.answer size hint r op = some a)
    (hplan : OnPlan params size r ((w.loc r).upd op a)) :
    Flow params size (w.called hint r op a) := by
  have hlt : ∀ {s d k bytes}, w.read (s, d, k) = some bytes → k < ((w.loc s).sends d).length := by
    intro s d k bytes hb
    obtain ⟨place, hplace, -⟩ := h.read s d k bytes hb
    exact (List.getElem?_eq_some_iff.1 hplace).1
  -- what had been read out stands as it was
  have hkeep : ∀ {x bytes}, w.read x = some bytes → (w.called hint r op a).read x = some bytes := by
    rintro ⟨s, d, k⟩ bytes hb
    rcases read_called w hint r op a (s, d, k) with heq | ⟨data, dest, -, hx, -⟩
    · rw [heq]
      exact hb
    · cases hx
      exact absurd (hlt hb) (Nat.lt_irrefl _)
  refine ⟨h.aligned.called hr hplan, fun s d k bytes hb => ?_, fun s d k n hk => ?_,
    fun s d k bytes hb => ?_, fun s d k hk => ?_⟩
  · rcases read_called w hint r op a (s, d, k) with heq | ⟨data, dest, rfl, hx, hdata⟩
    · rw [heq] at hb
      obtain ⟨place, hplace, hlen⟩ := h.read s d k bytes hb
      refine ⟨place, ?_, hlen⟩
      rcases sends_called w hint r op a s d with hs | ⟨-, place', hs, -⟩
      · rwa [hs]
      · rw [hs]
        exact getElem?_mono (List.prefix_append _ _) hplace
    · cases hx
      obtain rfl := Option.some.inj (hb.symm.trans hdata)
      refine ⟨.array bytes.length, ?_, rfl⟩
      rw [World.called_loc, if_pos rfl]
      show (post (w.loc r).sends d _ d)[_]? = _
      rw [post_apply, if_pos rfl]
      simp
  · rcases sends_called w hint r op a s d with hs | ⟨rfl, place, hs, harray⟩
    · rw [hs] at hk
      obtain ⟨bytes, hb⟩ := Option.isSome_iff_exists.1 (h.arrays s d k n hk)
      exact Option.isSome_of_mem (hkeep hb)
    · rw [hs] at hk
      rcases getElem?_concat.1 hk with hk | ⟨hk', hplace⟩
      · obtain ⟨bytes, hb⟩ := Option.isSome_iff_exists.1 (h.arrays s d k n hk)
        exact Option.isSome_of_mem (hkeep hb)
      · -- the message just posted
        obtain ⟨data, rfl, -⟩ := harray n hplace.symm
        have hread : (w.called hint s (.send data d) a).read (s, d, k) = some data := by
          rw [hk']
          exact Function.update_self _ _ _
        exact Option.isSome_of_mem hread
  · rw [got_called] at hb
    obtain ⟨hpaired, hread⟩ := h.got s d k bytes hb
    exact ⟨by rw [World.called_pairs]; exact hpaired, hkeep hread⟩
  · rw [got_called]
    exact (complete_called ha hk).elim (h.complete s d k) id

theorem tick (h : Flow params size w) {t : Tick} (ht : w.tick t = some w') :
    Flow params size w' := by
  have haligned := h.aligned.tick ht
  cases World.tick_cases ht with
  | @pair s d pairs hpairs =>
    refine ⟨haligned, h.read, h.arrays, fun s' d' k bytes hb => ?_, h.complete⟩
    obtain ⟨hpaired, hread⟩ := h.got s' d' k bytes hb
    refine ⟨Nat.lt_of_lt_of_le hpaired ?_, hread⟩
    show _ ≤ (Function.update w.pairs (s, d) pairs (s', d')).length
    rw [Function.update_apply]
    split
    · rename_i heq
      cases heq
      -- one pair more
      obtain ⟨i, -, hpairs⟩ := Option.bind_eq_some_iff.1 hpairs
      obtain ⟨j, -, hpairs⟩ := Option.bind_eq_some_iff.1 hpairs
      cases hpairs
      rw [List.length_append]
      exact Nat.le_add_right _ _
    · exact Nat.le_refl _
  | @read s d k seen b hplace hread =>
    have hold : ∀ {x bytes}, w.read x = some bytes →
        Function.update w.read (s, d, k) (some (bytesAt (w.visible s seen) b)) x = some bytes := by
      intro x bytes hx
      rw [Function.update_of_ne, hx]
      rintro rfl
      rw [hread] at hx
      cases hx
    refine ⟨haligned, fun s' d' k' bytes hb => ?_, fun s' d' k' n hk => ?_,
      fun s' d' k' bytes hb => ?_, h.complete⟩
    · by_cases hx : (s', d', k') = (s, d, k)
      · cases hx
        have hb : Function.update w.read (s, d, k) (some (bytesAt (w.visible s seen) b)) (s, d, k) =
          some bytes := hb
        rw [Function.update_self] at hb
        cases hb
        exact ⟨_, hplace, length_bytesAt _ _⟩
      · refine h.read s' d' k' bytes ?_
        rw [← hb]
        exact (Function.update_of_ne hx _ _).symm
    · obtain ⟨bytes, hb⟩ := Option.isSome_iff_exists.1 (h.arrays s' d' k' n hk)
      exact Option.isSome_of_mem (hold hb)
    · obtain ⟨hpaired, hb⟩ := h.got s' d' k' bytes hb
      exact ⟨hpaired, hold hb⟩
  | @deliver s d k x bytes place hx hread _ hplace _ _ =>
    obtain ⟨rfl, -⟩ := h.aligned.inStep s d k x hx
    obtain ⟨hloc, hpairs, hread', hgot⟩ := World.arrive_eq w s d k bytes place
    refine ⟨haligned, by rw [hloc, hread']; exact h.read, by rw [hloc, hread']; exact h.arrays,
      fun s' d' k' bytes' hb => ?_, fun s' d' k' hk => ?_⟩
    · rw [hpairs, hread']
      rw [hgot, Function.update_apply] at hb
      split at hb
      · rename_i heq
        cases heq
        cases hb
        exact ⟨(List.getElem?_eq_some_iff.1 hx).1, hread⟩
      · exact h.got s' d' k' bytes' hb
    · rw [hloc] at hk
      rw [hgot, Function.update_apply]
      split
      · rfl
      · exact h.complete s' d' k' hk

end Flow

end RdmaOpera.MpiExec
