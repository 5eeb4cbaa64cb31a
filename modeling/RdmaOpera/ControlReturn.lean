import RdmaOpera.ControlCalls

/-!
# The rounds of `control_exec` and its end

The server writes once for each request in each round and waits for all completions; a poll may
bring several of them, but never more than requests are posted (`counting`). Then the end message,
the digests and `deallocate_buffer`: each process returns 1 and has nothing queued (`fit_run`).
-/

namespace RdmaOpera

open Lib Prog
open RdmaExec (requestSize roleOf)

namespace ControlExec

/-- A queue never holds more completions than requests have been posted that leave one. -/
def counting (D : Nat → List UInt8 → Prop) : Monitor Verbs Local where
  upd := Local.upd
  adm l op a := Admitted .steady D l op a ∧ (l.upd op a).sWcs.length ≤ (l.upd op a).signaled
  spins := False

section rounds
variable {o : ByteOrder} {params : DccsParameters} {r : Role} {D : Nat → List UInt8 → Prop}
  {l l' : Local} {ins outs outs' : List DccsRequest} {b s p n : Nat} {α : Type}
  {hashed : List (List (List UInt8))}

theorem counting_of {ok : Local → VOp → Prop} {x : VProg α} {Q : α → Local → Prop}
    (h : Safe (tracking .steady D) ok x l Q) : Safe (counting D) ok x l Q :=
  h.relax rfl (fun _ _ _ ha => ha.1) (fun hspin => hspin trivial) fun _ _ hok => hok

theorem counting_quiet : Quiet (counting D) (Fit o params r) where
  okLog l _ := lenient_fit l _ trivial
  updLog _ _ _ := rfl

/-- A wait is no part of the history. -/
theorem fit_waitUntil {target : UInt64} {f : List UInt64 × UInt64 → VProg α} {Q : α → Local → Prop}
    (hf : ∀ a, Safe (tracking .steady D) (Fit o params r) (f a) l Q) :
    Safe (tracking .steady D) (Fit o params r) (Call.waitUntil target >>= f) l Q :=
  ⟨⟨trivial, trivial, trivial, fun _ he => nomatch he⟩, fun a _ => hf a⟩

namespace Connected

theorem extends_ (h : Connected o params ins outs b s p n l)
    (hs : Stage params ins outs b s' p' n' l') (he : l.Extends l') (hloads : l'.loads = l.loads)
    (hdigests : l'.digests = l.digests) : Connected o params ins outs b s' p' n' l' :=
  ⟨hs, fun i hi => (h.outgoing i hi).extends he, by rw [hloads, h.loads], hdigests.trans h.digests,
    h.packets.trans he.stores.length_le⟩

/-- A write more. -/
theorem posted (h : Connected o params ins outs b s p n l) (wr : SendWr) (hwr : wr.signaled) :
    Connected o params ins outs b (s + 1) p n { l with sq := l.sq ++ [wr] } := by
  have he : l.Extends { l with sq := l.sq ++ [wr] } :=
    { Local.Extends.refl l with sq := List.prefix_append _ _ }
  refine h.extends_ { h.stage with
    slotsIn := h.stage.slotsIn.extends he
    slotsOut := fun i hi => (h.stage.slotsOut i hi).extends he
    sends := ?_
    signaled := fun wr' hmem => ?_ } he rfl rfl
  · simp [h.stage.sends]
  · rcases List.mem_append.1 hmem with hmem | hmem
    · exact h.stage.signaled wr' hmem
    · rwa [List.mem_singleton.1 hmem]

/-- Completions more. -/
theorem polled (h : Connected o params ins outs b s p n l) (wcs : List Wc) :
    Connected o params ins outs b s (p + wcs.length) n { l with sWcs := l.sWcs ++ wcs } := by
  have he : l.Extends { l with sWcs := l.sWcs ++ wcs } :=
    { Local.Extends.refl l with sWcs := List.prefix_append _ _ }
  exact h.extends_ { h.stage with
    slotsIn := h.stage.slotsIn.extends he
    slotsOut := fun i hi => (h.stage.slotsOut i hi).extends he
    polled := by simp [h.stage.polled] } he rfl rfl

theorem pushed (h : Connected o params ins outs b s p n l) (block : Block) :
    Connected o params ins outs (b + 1) s p n { l with blocks := l.blocks ++ [block] } := by
  have he : l.Extends { l with blocks := l.blocks ++ [block] } :=
    { Local.Extends.refl l with blocks := List.prefix_append _ _ }
  exact ⟨h.stage.pushed block, fun i hi => (h.outgoing i hi).extends he, h.loads, h.digests, h.packets⟩

/-- A region more. -/
theorem registered (h : Connected o params ins outs b s p n l) (region : Region) :
    Connected o params ins outs b s p n { l with regions := l.regions ++ [region] } := by
  have he : l.Extends { l with regions := l.regions ++ [region] } :=
    { Local.Extends.refl l with regions := List.prefix_append _ _ }
  refine h.extends_ { h.stage with
    slotsIn := h.stage.slotsIn.extends he
    slotsOut := fun i hi => (h.stage.slotsOut i hi).extends he
    regions := ?_
    dereged := fun j hj => ⟨(h.stage.dereged j hj).1, ?_⟩ } he rfl rfl
  · exact h.stage.regions.trans (by simp)
  · exact (h.stage.dereged j hj).2.trans (by simp)

end Connected

/-! ## The rounds -/

/-- The write of request `i` in round `n`. -/
theorem fit_postOne (h : Accepted params) {i : Nat} {st : RoundState × Bool} (hst : st.2 = false)
    (hn : n < params.repeat_) (hi : i < params.count)
    (hl : Connected o params ins outs b (n * params.count + i + 2) p 2 l) :
    Safe (tracking .steady D) (Fit o params .server) (postOne outs n i st) l fun st' l' =>
      (st'.1.broke = st.1.broke ∧ st'.2 = false) ∧
        Connected o params ins outs b (n * params.count + (i + 1) + 2) p 2 l' := by
  obtain ⟨mr, hmr, hhandle⟩ := (hl.outgoing i hi).slot.handle
  have hgroup := h.group_lt hi
  have hturn : n * params.count + i < total params := by
    have := Nat.mul_le_mul_right params.count (Nat.succ_le_of_lt hn)
    rw [Nat.succ_mul] at this
    show _ < params.repeat_ * params.count
    omega
  have hmod : (n * params.count + i + 2 - 2) % params.count = i := by
    rw [Nat.add_sub_cancel, Nat.mul_comm, Nat.mul_add_mod, Nat.mod_eq_of_lt hi]
  unfold postOne
  rw [hst, if_neg (by decide)]
  refine Steady.untraced_bind lenient_fit (by trivial) fun now => ?_
  refine Safe.bind ((Steady.quiet lenient_fit).dccsRdmaPost (Q := fun rv l' => rv = 0 ∧
    l' = { l with sq := l.sq ++ [writeWr (reqAt outs i)] }) ⟨?_, trivial, ⟨mr, hmr, ?_⟩,
      fun _ he => nomatch he⟩ fun rv ha => ?_) ?_
  · show Sends o params .server l l.sq.length _
    rw [hl.stage.sends]
    exact .write _ rfl (by omega) (by omega) (by rw [hmod]; exact hl.outgoing i hi) rfl
  · exact hl.stage.live (by omega)
  · obtain rfl : rv = 0 := ha.calls trivial
    exact ⟨rfl, rfl⟩
  · rintro _ _ ⟨rfl, rfl⟩
    refine safe_ite.2 ⟨fun hne => absurd rfl hne, fun _ => ⟨⟨rfl, rfl⟩, ?_⟩⟩
    exact hl.posted _ rfl

/-- The wait for the completions of a round. -/
theorem fit_wait (hcount : params.count < 2 ^ 31) (hpos : 0 < params.count)
    (hl : Connected o params ins outs b (p + params.count) p 2 l) :
    Safe (counting D) (Fit o params .server) (whileZero (dccsRdmaSendComp (toInt32 params.count))) l
      fun rv l' => 0 ≤ rv ∧ Connected o params ins outs b (p + params.count) (p + params.count) 2 l' := by
  rw [toInt32_of_lt hcount]
  -- so many have been polled, and no more
  let I : List Wc → Local → Prop := fun wcArr t =>
    wcArr.length ≤ params.count ∧ t = { l with sWcs := l.sWcs ++ wcArr }
  have hloop : Safe (counting D) (Fit o params .server)
      (sendCompFrom params.count params.count [] : VProg (Int × List Wc)) l fun res l' =>
        res.1 = params.count ∧ ∃ wcArr, wcArr.length = params.count ∧ I wcArr l' := by
    refine counting_quiet.sendCompFrom I (fun wcArr t hlt hI => ?_) (fun wcArr t hge hI => ?_) _ [] l
      (by simp) ⟨Nat.zero_le _, by simp⟩
    · obtain ⟨-, rfl⟩ := hI
      have hconnected := hl.polled wcArr
      have hsignaled := hconnected.stage.signaled_eq
      refine ⟨⟨trivial, ?_, ?_, fun _ he => nomatch he⟩, fun poll ha => ?_⟩
      · show 0 < (params.count : Int).toNat
        omega
      · show (l.sWcs ++ wcArr).length < _
        rw [hsignaled, hconnected.stage.polled]
        omega
      · have hgood := Poll.rv_nonneg.2 ⟨ha.1.calls trivial, ha.1.completions trivial⟩
        rw [if_pos hgood]
        have hle := ha.2
        have hstage := (hl.polled (wcArr ++ poll.wcs)).stage
        have hupd : ({ l with sWcs := l.sWcs ++ wcArr } : Local).upd
            (.pollSend (params.count : Int).toNat) poll =
              { l with sWcs := l.sWcs ++ (wcArr ++ poll.wcs) } := by
          simp [Local.upd]
        rw [hupd, hstage.signaled_eq, hstage.polled] at hle
        exact ⟨by omega, hupd⟩
    · refine ⟨?_, wcArr, ?_, hI⟩
      · have := hI.1
        omega
      · have := hI.1
        omega
  refine safe_whileZero (Safe.bind hloop ?_)
  rintro ⟨rv, wcs⟩ l' ⟨hrv, wcArr, hlength, -, rfl⟩
  have hrv : rv = params.count := hrv
  have hconnected := hl.polled wcArr
  rw [hlength] at hconnected
  exact ⟨by omega, by omega, hconnected⟩

theorem fit_controlRound (h : Accepted params) (hcount : params.count < 2 ^ 31)
    (hrepeat : 100 ≤ params.repeat_) (hn : n < params.repeat_) {st : RoundState}
    (hst : st.broke = false)
    (hl : Connected o params ins outs b (n * params.count + 2) (n * params.count + 2) 2 l) :
    Safe (counting D) (Fit o params .server) (controlRound outs params n st) l fun st' l' =>
      st'.broke = false ∧ Connected o params ins outs b ((n + 1) * params.count + 2)
        ((n + 1) * params.count + 2) 2 l' := by
  have hdiv : ¬ params.repeat_ / 100 = 0 := by omega
  unfold controlRound
  rw [hst, if_neg (by decide), if_neg hdiv]
  refine safe_bind.2 ⟨⟨trivial, trivial, trivial, fun _ he => nomatch he⟩, fun _ _ => ?_⟩
  refine Safe.bind (counting_of (safe_forN (fun i (st' : RoundState × Bool) l' =>
    (st'.1.broke = false ∧ st'.2 = false) ∧
      Connected o params ins outs b (n * params.count + i + 2) (n * params.count + 2) 2 l')
    ⟨⟨rfl, rfl⟩, hl⟩ fun i st' l' hi hs => ?_)) ?_
  · refine (fit_postOne h hs.1.2 hn hi hs.2).mono fun st'' l'' hs' => ⟨⟨?_, hs'.1.2⟩, hs'.2⟩
    rw [hs'.1.1, hs.1.1]
  · rintro ⟨st', broke⟩ l' ⟨⟨hbroke, -⟩, hl'⟩
    rw [show n * params.count + params.count + 2 = n * params.count + 2 + params.count by omega] at hl'
    refine Safe.bind (fit_wait hcount h.checked.1 hl') ?_
    rintro rv l'' ⟨h0, hl''⟩
    refine safe_ite.2 ⟨fun hneg => absurd h0 (Int.not_le.2 hneg), fun _ => ?_⟩
    refine counting_of (Steady.untraced_bind lenient_fit (by trivial) fun _ => ⟨hbroke, ?_⟩)
    rw [Nat.succ_mul, show n * params.count + params.count + 2 = n * params.count + 2 + params.count by
      omega]
    exact hl''

/-- **The rounds** of a server. -/
theorem fit_serverRounds (h : Accepted params) (hcount : params.count < 2 ^ 31)
    (hrepeat : 100 ≤ params.repeat_) (hl : Connected o params ins outs b 2 2 2 l) :
    Safe (counting D) (Fit o params .server) (serverRounds outs params) l fun _ l' =>
      Connected o params ins outs b (total params + 2) (total params + 2) 2 l' := by
  refine safe_bind.2 ⟨lenient_fit _ _ trivial, fun target _ => ?_⟩
  refine (safe_forN (fun n (st : RoundState) l' => st.broke = false ∧ Connected o params ins outs b
    (n * params.count + 2) (n * params.count + 2) 2 l') ⟨rfl, by rwa [Nat.zero_mul]⟩
    fun n st l' hn hs => fit_controlRound h hcount hrepeat hn hs.1 hs.2).mono fun _ _ hs => hs.2

/-- Those of a client, which only waits. -/
theorem fit_clientRounds (hrepeat : 100 ≤ params.repeat_) :
    Safe (tracking .steady D) (Fit o params .client) (clientRounds params) l fun _ l' => l' = l := by
  have hdiv : ¬ params.repeat_ / 100 = 0 := by omega
  refine Steady.untraced_bind lenient_fit (by trivial) fun target => ?_
  refine safe_forN (fun _ _ l' => l' = l) rfl ?_
  rintro n target _ hn rfl
  unfold clientRound
  rw [if_neg hdiv]
  exact fit_waitUntil fun _ => rfl

/-! ## The end message -/

/-- Requests posted in a run. -/
def allSends (params : DccsParameters) : Role → Nat
  | .client => 2
  | .server => total params + 3

/-- Receives posted in a run. -/
def allRecvs : Role → Nat
  | .client => 3
  | .server => 2

/-- Behind the end message; `hashed` are the digests printed since. -/
structure Ended (params : DccsParameters) (r : Role) (ins outs : List DccsRequest)
    (hashed : List (List (List UInt8))) (l : Local) : Prop where
  slotsIn : Slots params l ins
  slotsOut : ∀ i < params.count, OutSlot params l i (reqAt outs i)
  drained : l.Drained
  sends : l.sq.length = allSends params r
  recvs : l.rq.length = allRecvs r
  loads : ∃ fetched : List (List UInt8), fetched.length = 2 ∧ l.loads = fetched ++ hashed.flatten
  digests : l.digests = hashed
  sizes : ∀ chunks ∈ hashed, chunks.length = params.count
  packets : 2 * params.count ≤ l.stores.length

/-- Nothing is posted or polled any more. -/
theorem Ended.later (h : Ended params r ins outs hashed l) (he : l.Extends l') (hsq : l'.sq = l.sq)
    (hrq : l'.rq = l.rq) (hsWcs : l'.sWcs = l.sWcs) (hrWcs : l'.rWcs = l.rWcs)
    {hashed' : List (List (List UInt8))} (hloads : ∃ fetched : List (List UInt8), fetched.length = 2 ∧
      l'.loads = fetched ++ hashed'.flatten) (hdigests : l'.digests = hashed')
    (hsizes : ∀ chunks ∈ hashed', chunks.length = params.count) :
    Ended params r ins outs hashed' l' where
  slotsIn := h.slotsIn.extends he
  slotsOut i hi := (h.slotsOut i hi).extends he
  drained := by
    refine ⟨?_, ?_, ?_⟩
    · rw [hsWcs, h.drained.sends, Local.signaled, Local.signaled, hsq]
    · rw [hsq]
      exact h.drained.last
    · rw [hrWcs, hrq]
      exact h.drained.recvs
  sends := hsq ▸ h.sends
  recvs := hrq ▸ h.recvs
  loads := hloads
  digests := hdigests
  sizes := hsizes
  packets := h.packets.trans he.stores.length_le

/-- A region that is given back. -/
theorem Ended.dereg (h : Ended params r ins outs hashed l) (handles : List Nat) :
    Ended params r ins outs hashed { l with dereged := l.dereged ++ handles } := by
  have he : l.Extends { l with dereged := l.dereged ++ handles } := { Local.Extends.refl l with }
  exact h.later he rfl rfl rfl rfl h.loads h.digests h.sizes

/-- The server sends the end message. -/
theorem fit_sendEnd {buf : Ptr} {bytes : List UInt8} (hbytes : bytes.length = syncEndMessageLength)
    (hbuf : buf.block = some l.blocks.length)
    (hl : Connected o params ins outs (endBlock params .server) (total params + 2) (total params + 2) 2 l) :
    Safe (tracking .steady D) (Fit o params .server) (sendMessage buf syncEndMessageLength)
      { l with blocks := l.blocks ++ [⟨buf.addr, bytes⟩] } fun rv l' =>
        rv = 1 ∧ Ended params .server ins outs [] l' := by
  refine safe_bind.2 (Steady.regMsgs lenient_fit ⟨⟨.inl rfl, .inl rfl⟩, .inl rfl, trivial,
    fun _ he => nomatch he⟩ fun mr hmr => ?_)
  have hlive := hl.stage.fresh hmr
  have hbuffer : Buffer _ mr buf l.blocks.length bytes := Tracking.buffer_pushed hbuf hmr
  have hspot := hbuffer.spot
  rw [hbytes, hl.stage.blocks] at hspot
  -- the message posted, and its completion polled
  have hregistered := (hl.pushed ⟨buf.addr, bytes⟩).registered
    ⟨.msgs, buf, syncEndMessageLength, mr.rkey⟩
  let wr : SendWr := ⟨.Send, buf.addr, syncEndMessageLength, some mr, 0, 0, true⟩
  have hposted := hregistered.posted wr rfl
  refine Safe.bind (Steady.sendStep lenient_fit
    (Q := fun res l' => res.1 = 1 ∧ Ended params .server ins outs [] l') ⟨?_, trivial,
      ⟨mr, rfl, hlive⟩, fun _ he => nomatch he⟩ ⟨trivial, Nat.one_pos, ?_, fun _ he => nomatch he⟩
        fun wc => ⟨rfl, ?_⟩) ?_
  · exact .end_ rfl hl.stage.sends ⟨rfl, rfl, rfl, hspot⟩
  · have hsignaled := hposted.stage.signaled_eq
    have hpolled := hposted.stage.polled
    show List.length _ < _
    rw [hsignaled, hpolled]
    exact Nat.lt_succ_self _
  · have hdone := (hposted.polled [wc]).stage
    have hsignaled := hdone.signaled_eq
    exact ⟨hdone.slotsIn, hdone.slotsOut, ⟨hdone.polled.trans hsignaled.symm,
      fun wr hwr => hdone.signaled wr (List.mem_of_getElem? hwr), hdone.filled.trans hdone.recvs.symm⟩,
      hdone.sends, hdone.recvs, ⟨l.loads, hl.loads, by simp⟩, hl.digests, by simp, hl.packets⟩
  · rintro ⟨rv, ok⟩ l' ⟨hrv, hended⟩
    exact ⟨⟨trivial, trivial, hended.drained, fun _ _ hs => absurd hs (by decide)⟩,
      fun _ _ => ⟨hrv, hended.dereg [mr.handle]⟩⟩

/-- The client receives it. -/
theorem fit_recvEnd {buf : Ptr} {bytes : List UInt8} (hbytes : bytes.length = syncEndMessageLength)
    (hbuf : buf.block = some l.blocks.length)
    (hl : Connected o params ins outs (endBlock params .client) 2 2 2 l) :
    Safe (tracking .steady D) (Fit o params .client) (recvMessage buf syncEndMessageLength)
      { l with blocks := l.blocks ++ [⟨buf.addr, bytes⟩] } fun rv l' =>
        rv = 1 ∧ Ended params .client ins outs [] l' := by
  refine safe_bind.2 (Steady.regMsgs lenient_fit ⟨⟨.inl rfl, .inl rfl⟩, .inl rfl, trivial,
    fun _ he => nomatch he⟩ fun mr hmr => ?_)
  have hlive := hl.stage.fresh hmr
  have hbuffer : Buffer _ mr buf l.blocks.length bytes := Tracking.buffer_pushed hbuf hmr
  have hspot := hbuffer.spot
  rw [hbytes, hl.stage.blocks] at hspot
  have hregistered := ((hl.pushed ⟨buf.addr, bytes⟩).registered
    ⟨.msgs, buf, syncEndMessageLength, mr.rkey⟩).stage
  refine Safe.bind (Steady.recvStep lenient_fit
    (Q := fun res l' => res.1 = 1 ∧ Ended params .client ins outs [] l') ⟨?_, trivial,
      ⟨mr, rfl, hlive⟩, fun _ he => nomatch he⟩ ⟨trivial, trivial, ?_, fun _ he => nomatch he⟩
        fun wc => ⟨rfl, ?_⟩) ?_
  · exact .end_ rfl hl.stage.recvs rfl hspot
  · show l.rWcs.length < (l.rq ++ [_]).length
    rw [List.length_append, hl.stage.filled, hl.stage.recvs]
    exact Nat.lt_succ_self 2
  · let recv : RecvWr := ⟨buf.addr, syncEndMessageLength, some mr⟩
    have hrecvs : (l.rq ++ [recv]).length = 3 := by
      rw [List.length_append, hl.stage.recvs]
      rfl
    have hfilled : (l.rWcs ++ [wc]).length = 3 := by
      rw [List.length_append, hl.stage.filled]
      rfl
    have he : l.Extends { l with
        blocks := l.blocks ++ [⟨buf.addr, bytes⟩]
        regions := l.regions ++ [⟨.msgs, buf, syncEndMessageLength, mr.rkey⟩]
        rq := l.rq ++ [recv], rWcs := l.rWcs ++ [wc] } :=
      { Local.Extends.refl l with
        blocks := List.prefix_append _ _
        regions := List.prefix_append _ _
        rq := List.prefix_append _ _
        rWcs := List.prefix_append _ _ }
    refine ⟨hl.stage.slotsIn.extends he, fun i hi => (hl.stage.slotsOut i hi).extends he, ⟨?_, ?_, ?_⟩,
      hl.stage.sends, hrecvs, ⟨l.loads, hl.loads, by simp⟩, hl.digests, by simp, hl.packets⟩
    · exact hl.stage.polled.trans hl.stage.signaled_eq.symm
    · exact fun wr hwr => hl.stage.signaled wr (List.mem_of_getElem? hwr)
    · exact hfilled.trans hrecvs.symm
  · rintro ⟨rv, ok⟩ l' ⟨hrv, hended⟩
    exact ⟨⟨trivial, trivial, hended.drained, fun _ _ _ _ => by
      rw [hended.drained.recvs, hended.recvs]; rfl⟩, fun _ _ => ⟨hrv, hended.dereg [mr.handle]⟩⟩

/-! ## Digests, and what is given back -/

/-- Request `i` lies in a group of its own size. -/
def Laid (params : DccsParameters) (l : Local) (i : Nat) (request : DccsRequest) : Prop :=
  ∃ g bufBase, Group params l g bufBase request.mr ∧ request.length = params.length ∧
    request.buf = bufBase.add (i % countPerMr params * params.length)

theorem Ended.laidIn (h : Ended params r ins outs hashed l) {i : Nat} (hi : i < params.count) :
    Laid params l i (reqAt ins i) := by
  obtain ⟨-, hlength, bufBase, hg, hbuf⟩ := h.slotsIn.slot i hi
  exact ⟨_, bufBase, hg, hlength, hbuf⟩

theorem Ended.laidOut (h : Ended params r ins outs hashed l) {i : Nat} (hi : i < params.count) :
    Laid params l i (reqAt outs i) := by
  obtain ⟨hlength, bufBase, hg, hbuf⟩ := h.slotsOut i hi
  exact ⟨_, bufBase, hg, hlength, hbuf⟩

theorem Hashed.extends {i : Nat} {request : DccsRequest} (h : Hashed params l i request r)
    (he : l.Extends l') : Hashed params l' i request r := by
  cases r with
  | client => exact Slot.extends h he
  | server => exact OutSlot.extends h he

/-- The digest of one of the two sets of requests. -/
theorem fit_print (h : Accepted params) (hsize : countPerMr params * params.length < 2 ^ 64)
    {requests : List DccsRequest} (hlaid : ∀ i < params.count, Laid params l i (reqAt requests i))
    (hfirst : hashed = [] → ∀ i < params.count, Hashed params l i (reqAt requests i) r)
    (hl : Ended params r ins outs hashed l) :
    Safe (tracking .steady D) (Fit o params r) (printSha1sum requests params.count) l fun _ l' =>
      ∃ chunks, Ended params r ins outs (hashed ++ [chunks]) l' := by
  have he : ∀ chunks digests, l.Extends { l with loads := l.loads ++ chunks, digests } :=
    fun chunks digests => { Local.Extends.refl l with loads := List.prefix_append _ _ }
  have hlength : (reqAt requests 0).length = params.length := by
    obtain ⟨-, -, -, hlength, -⟩ := hlaid 0 h.checked.1
    exact hlength
  obtain ⟨fetched, htwo, hloads⟩ := hl.loads
  refine (Steady.printSha1sum h.checked.1 (fun chunks hn => ?_) fun chunks =>
    ⟨trivial, trivial, trivial, fun _ he => nomatch he⟩).mono ?_
  · have hread : DigestRead params r { l with loads := l.loads ++ chunks }
        (reqAt requests chunks.length).buf params.length := by
      have hcount : (l.loads ++ chunks).length = 2 + hashed.flatten.length + chunks.length := by
        rw [List.length_append, hloads, List.length_append, htwo]
      refine ⟨?_, ?_, fun i hi hat => ⟨rfl, reqAt requests chunks.length, ?_, rfl⟩⟩
      · rw [hcount]
        omega
      · rintro rfl
        rw [hl.drained.recvs, hl.recvs]
        exact Nat.le_refl 3
      · have hat : (l.loads ++ chunks).length = 2 + i := hat
        rw [hcount] at hat
        cases hashed with
        | nil =>
          obtain rfl : chunks.length = i := by simpa using hat
          exact (hfirst rfl _ hi).extends (he chunks _)
        | cons first rest =>
          -- the first digest is over
          have := hl.sizes first List.mem_cons_self
          rw [List.flatten_cons, List.length_append] at hat
          omega
    obtain ⟨g, bufBase, hg, -, hbuf⟩ := hlaid _ hn
    rw [hlength]
    rw [hbuf] at hread ⊢
    refine ⟨.inr hread, Steady.served_load (hg.extends (he chunks _)) ?_, trivial,
      fun _ he => nomatch he⟩
    rw [show bufferLength params = countPerMr params * params.length from sizeT_of_lt hsize]
    exact Slot.offset_le params _ h.countPerMr_pos
  · rintro _ _ ⟨chunks, hsize, rfl⟩
    refine ⟨chunks, hl.later (he chunks _) rfl rfl rfl rfl ⟨fetched, htwo, ?_⟩ ?_ fun c hc => ?_⟩
    · show l.loads ++ chunks = _
      rw [hloads, List.append_assoc, List.flatten_append, List.flatten_singleton]
    · show l.digests ++ [chunks] = _
      rw [hl.digests]
    · rcases List.mem_append.1 hc with hc | hc
      · exact hl.sizes c hc
      · rw [List.mem_singleton.1 hc, hsize]

theorem fit_deallocate (h : Accepted params) {requests : List DccsRequest}
    (hlaid : ∀ i < params.count, Laid params l i (reqAt requests i))
    (hl : Ended params r ins outs hashed l) :
    Safe (tracking .steady D) (Fit o params r) (deallocateBuffer requests params) l fun _ l' =>
      Ended params r ins outs hashed l' := by
  have hmr : ∀ i < params.count, (reqAt requests i).mr.isSome := by
    intro i hi
    obtain ⟨g, bufBase, hg, -⟩ := hlaid i hi
    obtain ⟨mr, hmr, -⟩ := hg.region
    rw [hmr]
    rfl
  refine (Steady.deallocateBuffer lenient_fit h hmr fun i hi mr _ handles =>
    ⟨trivial, trivial, (hl.dereg handles).drained, fun _ _ hc _ => ?_⟩).mono ?_
  · subst hc
    show 3 ≤ l.rWcs.length
    rw [hl.drained.recvs, hl.recvs]
    rfl
  · rintro _ _ ⟨handles, rfl⟩
    exact hl.dereg handles

theorem fit_frees (arrays : List Ptr) :
    Safe (tracking .steady D) (Fit o params r) (arrays.forM Call.free) l fun _ l' => l' = l := by
  induction arrays with
  | nil => exact rfl
  | cons p arrays ih => exact Steady.untraced_bind lenient_fit (by trivial) fun _ => ih

/-! ## `run` -/

/-- What a process has done when it returns. -/
def Returned (params : DccsParameters) (r : Role) (rv : Int) (l : Local) : Prop :=
  rv = 1 ∧ ∃ ins outs first second, Ended params r ins outs [first, second] l

/-- An array of a server. -/
theorem fit_calloc (hsize : 8 * params.repeat_ < 2 ^ 64) (hl : Connected o params ins outs b s p n l)
    {f : Option Ptr → VProg α} {Q : α → Local → Prop}
    (hf : ∀ p' l', Connected o params ins outs (b + 1) s p n l' →
      Safe (counting D) (Fit o params r) (f (some p')) l' Q) :
    Safe (counting D) (Fit o params r) (callocStamps params >>= f) l Q := by
  refine safe_bind.2 ⟨⟨trivial, ?_, trivial, fun _ he => nomatch he⟩, fun a ha => ?_⟩
  · show (List.replicate (8 * params.repeat_) (0 : UInt8)).length < 2 ^ 64
    rwa [List.length_replicate]
  · cases a with
    | none => exact absurd (ha.1.calls trivial) (by simp [Unfailing])
    | some p' => exact hf p' _ (hl.pushed _)

theorem fit_serverRun (h : Accepted params) (hcount : params.count < 2 ^ 31)
    (hrepeat : 100 ≤ params.repeat_) (hsize : 8 * params.repeat_ < 2 ^ 64) {rv : Int}
    (hl : Connected o params ins outs (2 * params.mrCount + 4) 2 2 2 l) :
    Safe (counting D) (Fit o params .server) (serverRun params ins outs rv) l fun exit l' =>
      (∃ arrays stamps, exit = .ended ins outs arrays stamps 1) ∧ Ended params .server ins outs [] l' := by
  refine fit_calloc hsize hl fun start l₁ h₁ => fit_calloc hsize h₁ fun end_ l₂ h₂ => ?_
  refine Safe.bind (fit_serverRounds h hcount hrepeat h₂) fun stamps l₃ h₃ => counting_of ?_
  refine Steady.message lenient_fit ⟨trivial, ?_, trivial, fun _ he => nomatch he⟩ fun buf hbuf =>
    (fit_sendEnd length_syncEndMessage hbuf h₃).mono ?_
  · show syncEndMessage.length < 2 ^ 64
    decide
  · rintro rv' l' ⟨rfl, hended⟩
    exact ⟨by decide, ⟨_, _, rfl⟩, hended⟩

theorem fit_clientRun (hrepeat : 100 ≤ params.repeat_)
    (hl : Connected o params ins outs (2 * params.mrCount + 4) 2 2 2 l) :
    Safe (counting D) (Fit o params .client) (clientRun params ins outs) l fun exit l' =>
      (∃ arrays stamps, exit = .ended ins outs arrays stamps 1) ∧ Ended params .client ins outs [] l' := by
  refine counting_of (Safe.bind (fit_clientRounds hrepeat) ?_)
  rintro _ _ rfl
  refine Steady.message lenient_fit ⟨trivial, ?_, trivial, fun _ he => nomatch he⟩ fun buf hbuf =>
    (fit_recvEnd List.length_replicate hbuf hl).mono ?_
  · show (List.replicate syncEndMessageLength (0 : UInt8)).length < 2 ^ 64
    decide
  · rintro rv' l' ⟨rfl, hended⟩
    exact ⟨by decide, ⟨_, _, rfl⟩, hended⟩

end rounds

/-- What `run` is meant to be started with: requests that hold a packet, a hundred rounds at least, and
sizes that do not wrap. -/
structure Runnable (params : DccsParameters) : Prop where
  accepted : Accepted params
  packets : packetLength ≤ params.length
  requests : params.count * requestSize < 2 ^ 64
  buffers : countPerMr params * params.length < 2 ^ 64
  keys : 2 * params.mrCount ≤ 2 ^ 32
  count : params.count < 2 ^ 31
  rounds : 100 ≤ params.repeat_
  arrays : 8 * params.repeat_ < 2 ^ 64

/-- Each process gets through, and returns 1. -/
theorem fit_run {o : ByteOrder} {params : DccsParameters} {D : Nat → List UInt8 → Prop}
    (h : Runnable params) (hread : ∀ data, D 0 data → o.nat data = params.count) :
    Safe (counting D) (Fit o params (roleOf params)) (run o params) {} fun rv l =>
      Returned params (roleOf params) rv l := by
  have hinfos : params.count * mrInfoSize < 2 ^ 64 :=
    Nat.lt_of_le_of_lt (Nat.mul_le_mul_left _ mrInfoSize_le) h.requests
  have huntil : Safe (counting D) (Fit o params (roleOf params)) (untilEnd o params) {} fun exit l =>
      ∃ ins outs arrays stamps, exit = .ended ins outs arrays stamps 1 ∧
        Ended params (roleOf params) ins outs [] l := by
    refine Safe.bind (counting_of (Steady.connect lenient_fit params)) ?_
    rintro _ _ ⟨rfl, rfl⟩
    refine safe_ite.2 ⟨fun hne => absurd rfl hne, fun _ => safe_ite.2 ⟨fun hne => ?_, fun _ => ?_⟩⟩
    · exact absurd (sizeT_of_lt h.requests) hne
    refine Safe.bind (counting_of (fit_firstBuffer h.accepted h.keys)) ?_
    rintro ⟨rv, ins⟩ l ⟨hrv, hfirst⟩
    refine safe_ite.2 ⟨fun hne => absurd hrv hne, fun _ => ?_⟩
    refine Safe.bind (counting_of (fit_secondBuffer h.accepted h.keys hfirst)) ?_
    rintro ⟨rv, outs⟩ l ⟨hrv, hsecond⟩
    refine safe_ite.2 ⟨fun hne => absurd hrv hne, fun _ => ?_⟩
    refine Safe.bind (counting_of (fit_writePackets h.accepted h.buffers h.packets hsecond))
      fun _ l hpacked => ?_
    refine Safe.bind (counting_of (fit_exchange hinfos hread hpacked)) ?_
    rintro ⟨rv, outs⟩ l ⟨h0, hl⟩
    refine safe_ite.2 ⟨fun hneg => absurd h0 (Int.not_le.2 hneg), fun _ => ?_⟩
    cases hrole : roleOf params with
    | server =>
      refine (fit_serverRun h.accepted h.count h.rounds h.arrays hl).mono ?_
      rintro exit l' ⟨⟨arrays, stamps, he⟩, hended⟩
      exact ⟨_, _, _, _, he, hended⟩
    | client =>
      refine (fit_clientRun h.rounds hl).mono ?_
      rintro exit l' ⟨⟨arrays, stamps, he⟩, hended⟩
      exact ⟨_, _, _, _, he, hended⟩
  refine Safe.bind huntil ?_
  rintro _ l ⟨ins, outs, arrays, stamps, rfl, hl⟩
  -- both digests, in the order of the role, and everything given back
  have hrelease : ∀ first second l', Ended params (roleOf params) ins outs [first, second] l' →
      Safe (counting D) (Fit o params (roleOf params))
        (outDeallocateBuffer ins outs arrays params 1) l' fun rv l =>
          Returned params (roleOf params) rv l := by
    intro first second l' hl'
    refine counting_of (Safe.bind (fit_frees arrays) ?_)
    rintro _ _ rfl
    refine Safe.bind (fit_deallocate h.accepted (fun i hi => hl'.laidIn hi) hl') fun _ l₁ h₁ => ?_
    refine Safe.bind (fit_deallocate h.accepted (fun i hi => h₁.laidOut hi) h₁) fun _ l₂ h₂ => ?_
    refine (Steady.outDisconnect lenient_fit params 1).mono ?_
    rintro _ _ ⟨rfl, rfl⟩
    exact ⟨rfl, ins, outs, first, second, h₂⟩
  unfold finish
  cases hrole : roleOf params with
  | server =>
    rw [hrole] at hl hrelease
    refine Safe.bind (counting_of (fit_print h.accepted h.buffers (fun i hi => hl.laidOut hi)
      (fun _ i hi => hl.slotsOut i hi) hl)) ?_
    rintro _ l₁ ⟨first, h₁⟩
    refine Safe.bind (counting_of (fit_print h.accepted h.buffers (fun i hi => h₁.laidIn hi)
      (fun hnil => absurd hnil (by simp)) h₁)) ?_
    rintro _ l₂ ⟨second, h₂⟩
    exact hrelease first second l₂ h₂
  | client =>
    rw [hrole] at hl hrelease
    refine Safe.bind (counting_of (fit_print h.accepted h.buffers (fun i hi => hl.laidIn hi)
      (fun _ i hi => hl.slotsIn.slot i hi) hl)) ?_
    rintro _ l₁ ⟨first, h₁⟩
    refine Safe.bind (counting_of (fit_print h.accepted h.buffers (fun i hi => h₁.laidOut hi)
      (fun hnil => absurd hnil (by simp)) h₁)) ?_
    rintro _ l₂ ⟨second, h₂⟩
    exact hrelease first second l₂ h₂

end ControlExec

end RdmaOpera
