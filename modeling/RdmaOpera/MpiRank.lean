import RdmaOpera.MpiRounds

/-!
# What one rank does

The programs of `mpi_main.c` checked against the history of the rank that runs them. Whatever is
asked of the calls at which a rank may have to wait, `ok`, is a hypothesis of the rules here.
-/

namespace RdmaOpera.MpiExec

open Lib Prog

/-- A rank and its history. `heard` is what it can rely on when a digest arrives, and unless
`strict` it does not even know that no handle and no count of `MPI_Testall` is negative. -/
def watching (strict : Prop) (heard : Local → List UInt8 → Prop) : Monitor Mpi Local where
  upd l op a := l.upd op a
  adm l op a := match op, a with
    | .isend _ _ _ request, _ | .irecv _ _ _ request, _ => strict → 0 ≤ request
    | .testall totalCount, _ => strict → 0 ≤ totalCount
    | .recvWait, (bytes : List UInt8) => heard l bytes
    | _, _ => True
  spins := False

/-- What MPI answers is admitted. -/
theorem watching_admits {strict : Prop} {w : World} {size : Nat} {hint : Hint} {r : Nat} {op : MOp}
    {a : MOp.Ans op} (ha : w.answer size hint r op = some a) :
    (watching strict fun _ _ => True).adm (w.loc r) op a := by
  have hvalid := World.valid_of_answer ha
  cases op with
  | isend | irecv => exact fun _ => hvalid.2
  | testall totalCount => exact fun _ => hvalid
  | _ => trivial

/-- One of the first `total` values of `request_sent`. -/
def Counts (total : Nat) (request : Int) : Prop := ∃ k < total, request = cInt k

theorem Counts.mono {total total' : Nat} {request : Int} (h : Counts total request)
    (hle : total ≤ total') : Counts total' request := by
  obtain ⟨k, hk, heq⟩ := h
  exact ⟨k, Nat.lt_of_lt_of_le hk hle, heq⟩

theorem Counts.nonneg {total : Nat} {request : Int} (h : Counts total request)
    (htotal : total < 2 ^ 31) : 0 ≤ request := by
  obtain ⟨k, hk, rfl⟩ := h
  rw [cInt_of_lt (hk.trans htotal)]
  exact Int.natCast_nonneg k

/-- The calls of a round of which nothing is asked but the length and the handle. -/
def Quiet (params : DccsParameters) (total : Nat) : MOp → Prop
  | .isend _ length _ request | .irecv _ length _ request =>
    length = cInt params.length ∧ Counts total request
  | .requestFree _ | .barrierLeave | .getCycles | .logRound _ _ _ _ _ => True
  | _ => False

theorem Quiet.mono {params : DccsParameters} {total total' : Nat} {op : MOp}
    (h : Quiet params total op) (hle : total ≤ total') : Quiet params total' op := by
  cases op with
  | isend | irecv => exact ⟨h.1, h.2.mono hle⟩
  | _ => exact h

section rank
variable {strict : Prop} {heard : Local → List UInt8 → Prop} {ok : Local → MOp → Prop}

/-- **The nested loops**: an invariant of both. -/
theorem safe_postMessages {σ : Type} {m : Monitor Mpi σ} {ok : σ → MOp → Prop}
    {post : Nat → Int → Nat → Int → MProg Unit} {params : DccsParameters} {target : Int}
    {rank size bytes : Nat} {l : σ} (I : Nat → Nat → Posted → σ → Prop) (h0 : I 0 0 { bytes } l)
    (hskip : ∀ n host s l, skips target rank host → I n host s l → I n (host + 1) s l)
    (hpost : ∀ n host s l, n < params.count → host < size → ¬ skips target rank host →
      I n host s l →
      Safe m ok (post (sizeT (n * params.length)) (cInt params.length) host s.requestSent) l
      fun _ l' => I n (host + 1) ⟨intSucc s.requestSent, sizeT (s.bytes + params.length)⟩ l')
    (hnext : ∀ n s l, I n size s l → I (n + 1) 0 s l) :
    Safe m ok (postMessages post params target rank size bytes) l (I params.count 0) := by
  refine safe_forN (fun n s l => I n 0 s l) h0 fun n s l hn hI => ?_
  refine (safe_forN (fun host s l => I n host s l) hI fun host s l hhost hI => ?_).mono
    fun s l hI => hnext n s l hI
  unfold postOne
  refine safe_ite.2 ⟨fun hs => hskip n host s l hs hI, fun hs => ?_⟩
  exact (hpost n host s l hn hhost hs hI).bind fun _ l' hI' => hI'

variable {params : DccsParameters} {target : Int} {rank size bytes : Nat} {l₀ : Local}

theorem safe_sendMessages
    (hquiet : ∀ l op, Quiet params (requestCount target size * params.count) op → ok l op)
    (hvalid : ¬ invalid target size) (hrank : rank < size) :
    Safe (watching strict heard) ok (sendMessages size rank params target bytes) l₀ fun v l =>
      v.1 = 0 ∧ l = { l₀ with
        sends := fun d => l₀.sends d ++ filled params target rank size params.count 0 d } := by
  unfold sendMessages
  rw [if_neg hvalid]
  refine (safe_postMessages (fun n h s l => s.requestSent = cInt (sentBefore target rank size n h) ∧
    l = { l₀ with sends := fun d => l₀.sends d ++ filled params target rank size n h d })
    ?_ ?_ ?_ ?_).bind ?_
  · simp only [filled_zero, List.append_nil, and_true]
    rw [sentBefore, Nat.zero_mul]
    rfl
  · rintro n host s l hs ⟨hsent, rfl⟩
    simp only [filled_skip hs, sentBefore_skip hs, and_true]
    exact hsent
  · rintro n host s l hn hhost hs ⟨hsent, rfl⟩
    have hroom := sentBefore_lt hvalid hrank hn hhost hs
    refine ⟨hquiet _ _ ⟨rfl, _, hroom, hsent⟩, fun _ _ => ⟨hquiet _ _ trivial, fun _ _ => ?_⟩⟩
    refine ⟨by rw [sentBefore_post hs, hsent, intSucc_cInt], ?_⟩
    show ({ l₀ with sends := _ } : Local) = { l₀ with sends := _ }
    congr 1
    funext d
    rw [post_apply, filled_post hs hhost]
    by_cases hd : d = host
    · subst hd
      simp [block]
    · simp [hd]
  · rintro n s l ⟨hsent, rfl⟩
    simp only [filled_next, ← sentBefore_next, and_true]
    exact hsent
  · rintro s l ⟨-, rfl⟩
    exact ⟨rfl, rfl⟩

/-- In the array `requests`: every receive posted since `l₀`, and nothing else. -/
structure Requested (l₀ l : Local) (sent : Nat) : Prop where
  all : ∀ s k, (l₀.recvs s).length ≤ k → k < (l.recvs s).length → ∃ i < sent,
    l.requests (i : Nat) = some (s, k)
  only : ∀ i < sent, ∃ s k, l.requests (i : Nat) = some (s, k) ∧ k < (l.recvs s).length

/-- The history in turn `n` of the outer and `h` of the inner loop of `recv_messages`. If no handle
was negative they are all apart. -/
structure Awaiting (strict : Prop) (params : DccsParameters) (target : Int) (rank size : Nat)
    (l₀ : Local) (n h : Nat) (l : Local) : Prop where
  sends : l.sends = l₀.sends
  recvs : ∀ s, l.recvs s = l₀.recvs s ++ filled params target rank size n h s
  complete : l.complete = l₀.complete
  barriers : l.barriers = l₀.barriers
  loaded : l.loaded = l₀.loaded
  requested : strict → sentBefore target rank size n h ≤ 2 ^ 31 ∧
    Requested l₀ l (sentBefore target rank size n h)

theorem Requested.post {l : Local} {sent offset src : Nat} {length : Int} (h : Requested l₀ l sent)
    (hle : (l₀.recvs src).length ≤ (l.recvs src).length) :
    Requested l₀ (l.upd (.irecv offset length src (sent : Nat)) ()) (sent + 1) := by
  constructor
  · intro s k hk hlt
    simp only [Local.upd, post_apply] at hlt ⊢
    by_cases hnew : s = src ∧ k = (l.recvs src).length
    · obtain ⟨rfl, rfl⟩ := hnew
      exact ⟨sent, Nat.lt_succ_self sent, by rw [Function.update_self]⟩
    · have hold : k < (l.recvs s).length := by
        by_cases hs : s = src
        · subst hs
          rw [if_pos rfl, List.length_append, List.length_singleton] at hlt
          have : k ≠ (l.recvs s).length := fun hk => hnew ⟨rfl, hk⟩
          omega
        · rwa [if_neg hs] at hlt
      obtain ⟨i, hi, hreq⟩ := h.all s k hk hold
      refine ⟨i, by omega, ?_⟩
      rw [Function.update_of_ne (Int.natCast_inj.not.2 (by omega))]
      exact hreq
  · intro i hi
    simp only [Local.upd, post_apply]
    by_cases hlast : i = sent
    · subst hlast
      refine ⟨src, (l.recvs src).length, by rw [Function.update_self], ?_⟩
      rw [if_pos rfl, List.length_append, List.length_singleton]
      omega
    · obtain ⟨s, k, hreq, hk⟩ := h.only i (by omega)
      refine ⟨s, k, by rw [Function.update_of_ne (Int.natCast_inj.not.2 hlast)]; exact hreq, ?_⟩
      split
      · rw [List.length_append]
        omega
      · exact hk

theorem Awaiting.post {n host : Nat} {l : Local}
    (h : Awaiting strict params target rank size l₀ n host l) (hhost : host < size)
    (hs : ¬ skips target rank host)
    (hadm : strict → 0 ≤ cInt (sentBefore target rank size n host)) :
    Awaiting strict params target rank size l₀ n (host + 1)
      (l.upd (.irecv (sizeT (n * params.length)) (cInt params.length) host
        (cInt (sentBefore target rank size n host))) ()) where
  sends := h.sends
  recvs s := by
    show RdmaOpera.MpiExec.post l.recvs host (block params n) s = _
    rw [post_apply, filled_post hs hhost, h.recvs]
    split
    · rw [List.append_assoc]
    · rfl
  complete := h.complete
  barriers := h.barriers
  loaded := h.loaded
  requested hstrict := by
    obtain ⟨hle, hrequested⟩ := h.requested hstrict
    have hlt := lt_of_cInt_nonneg hle (hadm hstrict)
    rw [sentBefore_post hs, cInt_of_lt hlt]
    exact ⟨hlt, hrequested.post (by rw [h.recvs, List.length_append]; omega)⟩

/-- The history `recv_messages` leaves. -/
structure Received (strict : Prop) (params : DccsParameters) (target : Int) (rank size : Nat)
    (l₀ l : Local) : Prop where
  sends : l.sends = l₀.sends
  recvs : ∀ s, l.recvs s = l₀.recvs s ++ filled params target rank size params.count 0 s
  barriers : l.barriers = l₀.barriers
  loaded : l.loaded = l₀.loaded
  complete : ∀ x ∈ l₀.complete, x ∈ l.complete
  counted : strict → requestCount target size * params.count < 2 ^ 31
  arrived : strict →
    ∀ s k, (l₀.recvs s).length ≤ k → k < (l.recvs s).length → (s, k) ∈ l.complete

theorem safe_recvMessages
    (hquiet : ∀ l op, Quiet params (requestCount target size * params.count) op → ok l op)
    (hvalid : ¬ invalid target size) (hrank : rank < size)
    (htest : ∀ l, Awaiting strict params target rank size l₀ params.count 0 l →
      ok l (.testall (cInt (requestCount target size * params.count)))) :
    Safe (watching strict heard) ok (recvMessages size rank params target bytes) l₀ fun v l =>
      v.1 = 0 ∧ Received strict params target rank size l₀ l := by
  unfold recvMessages
  rw [if_neg hvalid]
  have hzero : sentBefore target rank size 0 0 = 0 := by simp [sentBefore, hosts]
  refine (safe_postMessages (fun n h s l => s.requestSent = cInt (sentBefore target rank size n h) ∧
    Awaiting strict params target rank size l₀ n h l) ?_ ?_ ?_ ?_).bind ?_
  · rw [hzero]
    refine ⟨rfl, rfl, fun s => by rw [filled_zero, List.append_nil], rfl, rfl, rfl, fun _ => ?_⟩
    rw [hzero]
    refine ⟨Nat.zero_le _, fun s k hk hlt => ?_, fun i hi => absurd hi (Nat.not_lt_zero i)⟩
    omega
  · rintro n host s l hs ⟨hsent, h⟩
    rw [← sentBefore_skip hs] at hsent
    refine ⟨hsent, h.sends, fun src => ?_, h.complete, h.barriers, h.loaded, ?_⟩
    · rw [h.recvs, filled_skip hs]
    · rw [sentBefore_skip hs]
      exact h.requested
  · rintro n host s l hn hhost hs ⟨hsent, h⟩
    have hroom := sentBefore_lt hvalid hrank hn hhost hs
    refine ⟨hquiet _ _ ⟨rfl, _, hroom, hsent⟩, fun _ hadm => ?_⟩
    rw [hsent] at hadm ⊢
    exact ⟨by rw [sentBefore_post hs, intSucc_cInt], h.post hhost hs hadm⟩
  · rintro n s l ⟨hsent, h⟩
    rw [sentBefore_next] at hsent
    refine ⟨hsent, h.sends, fun src => ?_, h.complete, h.barriers, h.loaded, ?_⟩
    · rw [h.recvs, filled_next]
    · rw [← sentBefore_next]
      exact h.requested
  · rintro s l ⟨-, h⟩
    have hall := sentBefore_all hvalid hrank params.count
    refine ⟨htest l h, fun _ hadm => ?_⟩
    have hcounted : strict → requestCount target size * params.count < 2 ^ 31 :=
      fun hstrict => lt_of_cInt_nonneg (hall ▸ (h.requested hstrict).1) (hadm hstrict)
    refine ⟨rfl, h.sends, h.recvs, h.barriers, h.loaded, fun x hx => ?_, hcounted,
      fun hstrict src k hk hlt => ?_⟩
    · refine List.mem_append_left _ ?_
      rwa [h.complete]
    · obtain ⟨i, hi, hreq⟩ := (h.requested hstrict).2.all src k hk hlt
      refine List.mem_append_right _ (List.mem_filterMap.2 ⟨i, ?_, hreq⟩)
      rw [cInt_of_lt (hcounted hstrict), Int.toNat_natCast]
      exact List.mem_range.2 (hall ▸ hi)

/-! ## Rounds -/

/-- `n` rounds later. -/
structure Advanced (strict : Prop) (params : DccsParameters) (rank size n : Nat) (l₀ l : Local) :
    Prop where
  sends : ∀ d, l.sends d = l₀.sends d ++
    if talks params.direction rank d ∧ d < size then rounds params n else []
  recvs : ∀ s, l.recvs s = l₀.recvs s ++
    if talks params.direction s rank ∧ s < size then rounds params n else []
  barriers : l.barriers = l₀.barriers + n
  loaded : l.loaded = l₀.loaded
  complete : ∀ x ∈ l₀.complete, x ∈ l.complete
  counted : strict → (targets rank params.direction).shouldRecv = true → 0 < n →
    requestCount (targets rank params.direction).recvSource size * params.count < 2 ^ 31
  arrived : strict →
    ∀ s k, (l₀.recvs s).length ≤ k → k < (l.recvs s).length → (s, k) ∈ l.complete

theorem Advanced.refl (l : Local) : Advanced strict params rank size 0 l l where
  sends d := by simp
  recvs s := by simp
  barriers := rfl
  loaded := rfl
  complete _ hx := hx
  counted _ _ h0 := absurd h0 (Nat.lt_irrefl 0)
  arrived _ s k hk hlt := by omega

theorem Advanced.trans {n k : Nat} {l l' : Local} (h : Advanced strict params rank size n l₀ l)
    (h' : Advanced strict params rank size k l l') :
    Advanced strict params rank size (n + k) l₀ l' where
  sends d := by
    rw [h'.sends, h.sends, List.append_assoc, rounds_add]
    split <;> rfl
  recvs s := by
    rw [h'.recvs, h.recvs, List.append_assoc, rounds_add]
    split <;> rfl
  barriers := by rw [h'.barriers, h.barriers, Nat.add_assoc]
  loaded := h'.loaded.trans h.loaded
  complete x hx := h'.complete x (h.complete x hx)
  counted hstrict hrecv hpos := by
    rcases Nat.eq_zero_or_pos n with rfl | hn
    · exact h'.counted hstrict hrecv (by omega)
    · exact h.counted hstrict hrecv hn
  arrived hstrict s i hi hlt := by
    rcases Nat.lt_or_ge i (l.recvs s).length with hi' | hi'
    · exact h'.complete _ (h.arrived hstrict s i hi hi')
    · exact h'.arrived hstrict s i hi' hlt

/-- Sending, if this rank does. -/
theorem filled_sends (params : DccsParameters) (rank size d : Nat) :
    (if (targets rank params.direction).shouldSend = true then
        filled params (targets rank params.direction).sendTarget rank size params.count 0 d else []) =
      if talks params.direction rank d ∧ d < size then rounds params 1 else [] := by
  simp only [rounds_one, ← sends_iff, filled, Nat.not_lt_zero, if_false]
  by_cases hsend : (targets rank params.direction).shouldSend = true
  · simp only [hsend, if_true, true_and]
  · simp [hsend]

theorem filled_receives (params : DccsParameters) (rank size s : Nat) :
    (if (targets rank params.direction).shouldRecv = true then
        filled params (targets rank params.direction).recvSource rank size params.count 0 s else []) =
      if talks params.direction s rank ∧ s < size then rounds params 1 else [] := by
  simp only [rounds_one, ← receives_iff, filled, Nat.not_lt_zero, if_false]
  by_cases hrecv : (targets rank params.direction).shouldRecv = true
  · simp only [hrecv, if_true, true_and]
  · simp [hrecv]

/-- **One round**: a rank that waits for its receives has sent its blocks before. -/
theorem safe_round_sent (hquiet : ∀ l op, Quiet params ((size - 1) * params.count) op → ok l op) (hrank : rank < size)
    (henter : ok l₀ .barrierEnter)
    (htest : ∀ l₁ l, (targets rank params.direction).shouldRecv = true →
      (∀ d, l₁.sends d = l₀.sends d ++
        if talks params.direction rank d ∧ d < size then rounds params 1 else []) →
      l₁.recvs = l₀.recvs → l₁.barriers = l₀.barriers + 1 →
      Awaiting strict params (targets rank params.direction).recvSource rank size l₁ params.count 0 l →
      ok l (.testall (cInt (requestCount (targets rank params.direction).recvSource size * params.count))))
    (r : Nat) :
    Safe (watching strict heard) ok (round size rank params r ()) l₀ fun _ l =>
      Advanced strict params rank size 1 l₀ l := by
  obtain ⟨hsendTarget, hrecvSource⟩ := targets_valid hrank params.direction
  have hsends := filled_sends params rank size
  have hreceives := filled_receives params rank size
  -- behind the barrier, and after sending
  let entered : Local := { l₀ with barriers := l₀.barriers + 1 }
  let sent : Local :=
    { entered with
      sends := fun d => l₀.sends d ++
        if talks params.direction rank d ∧ d < size then rounds params 1 else [] }
  have hsend : Safe (watching strict heard) ok
      (if (targets rank params.direction).shouldSend then sendMessages size rank params
        (targets rank params.direction).sendTarget 0
        else pure (0, 0) : MProg (Int × Nat)) entered fun _ l => l = sent := by
    refine safe_ite.2 ⟨fun hs => ?_, fun hs => ?_⟩
    · refine (safe_sendMessages (fun l op h => hquiet l op (h.mono (Nat.mul_le_mul_right _ ?_)))
        hsendTarget hrank).mono fun v l h => ?_
      · exact (requestCount_le hrank params.direction).1 hs
      rw [h.2]
      show ({ entered with sends := _ } : Local) = { entered with sends := _ }
      congr 1
      funext d
      rw [← hsends, if_pos hs]
    · show entered = { entered with sends := _ }
      have hnone : l₀.sends = fun d =>
        l₀.sends d ++ if talks params.direction rank d ∧ d < size then rounds params 1 else [] := by
        funext d
        rw [← hsends, if_neg hs, List.append_nil]
      rw [← hnone]
  unfold round
  refine ⟨henter, fun _ _ => ⟨hquiet _ .barrierLeave trivial, fun _ _ => ?_⟩⟩
  refine hsend.bind fun _ l hl => ?_
  subst hl
  refine safe_ite.2 ⟨fun hr => ⟨hquiet _ _ trivial, fun _ _ => ?_⟩, fun hr => ?_⟩
  · have hle := (requestCount_le hrank params.direction).2 hr
    refine (safe_recvMessages (fun l op h => hquiet l op (h.mono (Nat.mul_le_mul_right _ hle)))
      hrecvSource hrank fun l => htest sent l hr (fun _ => rfl) rfl rfl).bind fun v l h => ?_
    refine ⟨hquiet _ .getCycles trivial, fun _ _ =>
      ⟨hquiet _ (.logRound _ _ _ _ _) trivial, fun _ _ => ?_⟩⟩
    refine ⟨fun d => ?_, fun s => ?_, h.2.barriers, h.2.loaded, h.2.complete,
      fun hstrict _ _ => h.2.counted hstrict, h.2.arrived⟩
    · exact congrFun h.2.sends d
    · rw [← hreceives, if_pos hr]
      exact h.2.recvs s
  · refine ⟨fun d => rfl, fun s => ?_, rfl, rfl, fun _ hx => hx, fun _ h _ => absurd h hr,
      fun _ s k hk hlt => ?_⟩
    · rw [← hreceives, if_neg hr, List.append_nil]
    · exact absurd (Nat.lt_of_le_of_lt hk hlt) (Nat.lt_irrefl _)

theorem safe_round (hquiet : ∀ l op, Quiet params ((size - 1) * params.count) op → ok l op) (hrank : rank < size)
    (henter : ok l₀ .barrierEnter)
    (htest : ∀ l₁ l, (targets rank params.direction).shouldRecv = true → l₁.recvs = l₀.recvs →
      l₁.barriers = l₀.barriers + 1 →
      Awaiting strict params (targets rank params.direction).recvSource rank size l₁ params.count 0 l →
      ok l (.testall (cInt (requestCount (targets rank params.direction).recvSource size * params.count))))
    (r : Nat) :
    Safe (watching strict heard) ok (round size rank params r ()) l₀ fun _ l =>
      Advanced strict params rank size 1 l₀ l :=
  safe_round_sent hquiet hrank henter (fun l₁ l hr _ => htest l₁ l hr) r

theorem safe_rounds_sent (hquiet : ∀ l op, Quiet params ((size - 1) * params.count) op → ok l op) (hrank : rank < size)
    (henter : ∀ n l, n < params.repeat_ → Advanced strict params rank size n l₀ l →
      ok l .barrierEnter)
    (htest : ∀ n l l₁ l₂, n < params.repeat_ → Advanced strict params rank size n l₀ l →
      (targets rank params.direction).shouldRecv = true →
      (∀ d, l₁.sends d = l.sends d ++
        if talks params.direction rank d ∧ d < size then rounds params 1 else []) →
      l₁.recvs = l.recvs → l₁.barriers = l.barriers + 1 →
      Awaiting strict params (targets rank params.direction).recvSource rank size l₁ params.count 0 l₂ →
      ok l₂ (.testall (cInt (requestCount (targets rank params.direction).recvSource size * params.count)))) :
    Safe (watching strict heard) ok (forN params.repeat_ (round size rank params) ()) l₀
      fun _ l => Advanced strict params rank size params.repeat_ l₀ l := by
  refine safe_forN (fun n _ l => Advanced strict params rank size n l₀ l) (.refl l₀)
    fun n _ l hn h => ?_
  exact (safe_round_sent hquiet hrank (henter n l hn h)
    (fun l₁ l₂ => htest n l l₁ l₂ hn h) n).mono fun _ l' h' => h.trans h'

theorem safe_rounds (hquiet : ∀ l op, Quiet params ((size - 1) * params.count) op → ok l op) (hrank : rank < size)
    (henter : ∀ n l, n < params.repeat_ → Advanced strict params rank size n l₀ l →
      ok l .barrierEnter)
    (htest : ∀ n l l₁ l₂, n < params.repeat_ → Advanced strict params rank size n l₀ l →
      (targets rank params.direction).shouldRecv = true → l₁.recvs = l.recvs →
      l₁.barriers = l.barriers + 1 →
      Awaiting strict params (targets rank params.direction).recvSource rank size l₁ params.count 0 l₂ →
      ok l₂ (.testall (cInt (requestCount (targets rank params.direction).recvSource size * params.count)))) :
    Safe (watching strict heard) ok (forN params.repeat_ (round size rank params) ()) l₀
      fun _ l => Advanced strict params rank size params.repeat_ l₀ l :=
  safe_rounds_sent hquiet hrank henter fun n l l₁ l₂ hn h hr _ => htest n l l₁ l₂ hn h hr

/-! ## The checksum -/

/-- The history of rank 0 with the digests of the ranks below `j`. -/
structure Collected (j : Nat) (l₀ l : Local) : Prop where
  sends : l.sends = l₀.sends
  recvs : ∀ s, l.recvs s = l₀.recvs s ++ if 1 ≤ s ∧ s < j then [.array shaDigestLength] else []
  barriers : l.barriers = l₀.barriers
  loaded : l.loaded = l₀.loaded
  complete : ∀ x ∈ l₀.complete, x ∈ l.complete
  digests : ∀ s, 1 ≤ s → s < j → (s, (l₀.recvs s).length) ∈ l.complete

theorem Collected.one (l : Local) : Collected 1 l l where
  sends := rfl
  recvs s := by
    have hno : ¬ (1 ≤ s ∧ s < 1) := by omega
    rw [if_neg hno, List.append_nil]
  barriers := rfl
  loaded := rfl
  complete _ hx := hx
  digests s h1 h2 := by omega

theorem Collected.next {j : Nat} {l : Local} (h : Collected j l₀ l) (hj : 1 ≤ j)
    (bytes : List UInt8) :
    Collected (j + 1) l₀ ((l.upd (.recvPost shaDigestLength j) ()).upd .recvWait bytes) where
  sends := h.sends
  recvs s := by
    show post l.recvs j _ s = _
    rw [post_apply, h.recvs]
    by_cases hs : s = j
    · subst hs
      have hno : ¬ (1 ≤ s ∧ s < s) := by omega
      have hyes : 1 ≤ s ∧ s < s + 1 := by omega
      rw [if_pos rfl, if_neg hno, if_pos hyes, List.append_nil]
    · have hiff : s < j + 1 ↔ s < j := by omega
      simp only [if_neg hs, hiff]
  barriers := h.barriers
  loaded := h.loaded
  complete x hx := List.mem_append_left _ (h.complete x hx)
  digests s h1 h2 := by
    by_cases hs : s = j
    · subst hs
      refine List.mem_append_right _ ?_
      have hno : ¬ (1 ≤ s ∧ s < s) := by omega
      show (s, (l₀.recvs s).length) ∈ [(s, (l.recvs s).length)]
      rw [h.recvs, if_neg hno, List.append_nil]
      exact List.mem_singleton_self _
    · exact List.mem_append_left _ (h.digests s h1 (by omega))

/-- Rank 0 stops behind the digest that differs, if one does. -/
theorem safe_verifyFrom_collected (digest : Digest)
    (hpost : ∀ j l, 1 ≤ j → j < size → Collected j l₀ l → ok l (.recvPost shaDigestLength j))
    (hwait : ∀ j l, 1 ≤ j → j < size → Collected j l₀ l →
      ok (l.upd (.recvPost shaDigestLength j) ()) .recvWait)
    (hlog : ∀ j l format, Collected j l₀ l → ok l (.logError format)) :
    ∀ (k j : Nat) (l : Local), 1 ≤ j → j + k = size → Collected j l₀ l →
      Safe (watching strict heard) ok (verifyFrom digest k j) l fun v l => ∃ i, j ≤ i ∧
      i ≤ size ∧ Collected i l₀ l ∧
        (v = 0 ∧ i = size ∨ j < i ∧ ∃ l' bytes, l'.loaded = l₀.loaded ∧ heard l' bytes ∧
        strncmp shaDigestLength digest.toList bytes ≠ 0)
  | 0, j, l, hj, hk, h => ⟨j, Nat.le_refl j, by omega, h, .inl ⟨rfl, by omega⟩⟩
  | k + 1, j, l, hj, hk, h => by
    refine ⟨hpost j l hj (by omega) h,
      fun _ _ => ⟨hwait j l hj (by omega) h, fun bytes hbytes => ?_⟩⟩
    have hnext := h.next hj bytes
    have hloaded : (l.upd (.recvPost shaDigestLength j) ()).loaded = l₀.loaded := h.loaded
    refine safe_ite.2 ⟨fun hne => ⟨hlog (j + 1) _ _ hnext, fun _ _ => ?_⟩, fun _ => ?_⟩
    · exact ⟨j + 1, by omega, by omega, hnext, .inr ⟨by omega, _, bytes, hloaded, hbytes, hne⟩⟩
    · refine (safe_verifyFrom_collected digest hpost hwait hlog k (j + 1) _ (by omega) (by omega) hnext).mono ?_
      rintro v l ⟨i, hi, hsize, hl, hv⟩
      exact ⟨i, by omega, hsize, hl, hv.imp_right fun ⟨hlt, hm⟩ => ⟨by omega, hm⟩⟩

end rank

end RdmaOpera.MpiExec
