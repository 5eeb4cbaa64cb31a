import RdmaOpera.CallKinds
import RdmaOpera.ExecPlan

/-!
# The two processes of `rdma_exec` keep to their plans

`run` walked through from its first call, on either side: while no call fails, every post, every
read and every digest is the one the plan of the process allows next. A completion may report an
error.
-/

namespace RdmaOpera

open Lib Prog

/-! ## Calls that no plan restricts -/

/-- Calls the history does not record. -/
def Untraced : VOp → Prop
  | .cm _ | .cmRelease _ | .logError _ | .getCycles | .report .. | .free _ | .leave _ => True
  | _ => False

/-- Calls that every plan allows. -/
def Unplanned : VOp → Prop
  | .postSend _ | .postRecv _ | .regMr .. | .load .. | .store .. | .logDigest .. => False
  | _ => True

namespace Tracking

variable {plan : Plan} {R : Regime} {D : Nat → List UInt8 → Prop} {α : Type} {l : Local}

theorem untraced (hlive : ¬ R.live) {p : VProg α} (h : Calls Untraced p) {Q : α → Local → Prop}
    (hq : ∀ a, Q a l) :
    Safe (tracking R D) (plan.ok R) p l Q := by
  refine (h.keeps (I := (· = l)) hlive rfl ?_ ?_).mono fun a l' h' => h' ▸ hq a
  · intro l' op ho _
    refine ⟨?_, fun hl => absurd hl hlive⟩
    cases op <;> trivial
  · rintro _ op a ho rfl -
    cases op <;> first | rfl | exact ho.elim

theorem untraced_bind (hlive : ¬ R.live) {op : VOp} (hop : Untraced op) {f : op.Ans → VProg α}
    {Q : α → Local → Prop} (hf : ∀ a, Safe (tracking R D) (plan.ok R) (f a) l Q) :
    Safe (tracking R D) (plan.ok R) (Prog.op (S := Verbs) op >>= f) l Q := by
  refine untracked ?_ (fun hl => absurd hl hlive) (fun a => ?_) hf
  · cases op <;> trivial
  · cases op <;> first | rfl | exact hop.elim

theorem unplanned (hlive : ¬ R.live) {p : VProg α} (h : Calls Unplanned p) :
    Safe (tracking R D) (plan.ok R) p l fun _ _ => True := by
  refine h.keeps (I := fun _ => True) hlive trivial ?_ fun _ _ _ _ _ _ => trivial
  intro l' op ho _
  refine ⟨?_, fun hl => absurd hl hlive⟩
  cases op <;> trivial

/-- A block on the stack and its region. -/
theorem buffer_pushed {buf : Ptr} {mr : Mr} {bytes : List UInt8}
    (hbuf : buf.block = some l.blocks.length) (hmr : mr.handle = l.regions.length) :
    Buffer { l with
        blocks := l.blocks ++ [⟨buf.addr, bytes⟩]
        regions := l.regions ++ [⟨.msgs, buf, bytes.length, mr.rkey⟩] }
      mr buf l.blocks.length bytes :=
  ⟨hbuf, by simp, .msgs, mr.rkey, by simp [hmr]⟩

/-- `print_sha1sum` reads the requests in order. -/
theorem printSha1sum {params : DccsParameters} {requests : List DccsRequest} (hlive : ¬ R.live)
    (hcount : 0 < params.count) (hslots : Slots params l requests)
    (hload : ∀ chunks, chunks.length < params.count →
      plan.load { l with loads := l.loads ++ chunks } (reqAt requests chunks.length).buf params.length)
    (hdigest : ∀ chunks, chunks.length = params.count →
      plan.digest { l with loads := l.loads ++ chunks } chunks) :
    Safe (tracking R D) (plan.ok R) (RdmaOpera.printSha1sum requests params.count) l
      fun _ _ => True := by
  refine safe_ite.2 ⟨fun h0 => by omega, fun _ => ?_⟩
  have hlength : (reqAt requests 0).length = params.length := (hslots.slot 0 hcount).length
  refine Safe.bind (safe_forN (fun n chunks l' => chunks.length = n ∧
    l' = { l with loads := l.loads ++ chunks }) ⟨rfl, by simp⟩ ?_) ?_
  · rintro n chunks _ hn ⟨rfl, rfl⟩
    rw [hlength]
    refine ⟨⟨hload chunks hn, fun hl => absurd hl hlive⟩, fun data _ => ?_⟩
    exact ⟨by simp, by simp [tracking, Local.upd]⟩
  · rintro chunks _ ⟨hlen, rfl⟩
    exact ⟨⟨hdigest chunks hlen, fun hl => absurd hl hlive⟩, fun _ _ => trivial⟩

end Tracking

namespace RdmaExec

section walk
variable {o : ByteOrder} {params : DccsParameters} {R : Regime} {D : Nat → List UInt8 →
  Prop} {plan : Plan}

/-! ## What the two sides have in common -/

/-- The history behind `allocate_buffer`. -/
structure Allocated (params : DccsParameters) (requests : List DccsRequest) (l : Local) : Prop where
  slots : Slots params l requests
  blocks : l.blocks.length = params.mrCount
  rest : l = { blocks := l.blocks, regions := l.regions }

/-- `run` up to the end message: `X`, `Y` and `Z` hold behind the exchange, the rounds and the end
message. -/
theorem planned_untilEnd (h : Accepted params) (hcalls : R.calls) (hlive : ¬ R.live)
    (hregion : ∀ access p, RequestRegion params access p → plan.region access p)
    {X Y Z : List DccsRequest → Local → Prop}
    (hexchange : ∀ requests l, Allocated params requests l →
      Safe (tracking R D) (plan.ok R) (exchangeMrInfo o requests params) l fun r l' =>
      0 ≤ r.1 → X r.2 l')
    (hrounds : ∀ requests l, X requests l →
      Safe (tracking R D) (plan.ok R) (rounds requests params) l Y)
    (hend : ∀ requests l, Y requests l → Safe (tracking R D) (plan.ok R) (endMessage params) l
      fun rv l' => 0 ≤ rv → Z requests l') :
    Safe (tracking R D) (plan.ok R) (untilEnd o params) {} fun exit l =>
      ∀ requests rv, exit = .ended requests rv → Z requests l := by
  have hmanages : Manages Untraced := ⟨fun _ => trivial, fun _ => trivial, fun _ => trivial⟩
  refine safe_bind.2 (Tracking.untraced hlive (hmanages.connect params) fun rv => ?_)
  refine safe_ite.2 ⟨fun _ _ _ he => (nomatch he),
    fun _ => safe_ite.2 ⟨fun _ => hlive, fun _ => ?_⟩⟩
  refine Safe.bind (Tracking.allocateBuffer h List.length_replicate hcalls hlive
    fun p b hp hb => ?_) fun r l hr => ?_
  · exact hregion _ _ (.inr ⟨rfl, b, hp, hb⟩)
  obtain ⟨hrv, hslots, hblocks, -, hrest⟩ := hr
  refine safe_ite.2 ⟨fun hne => absurd hrv hne, fun _ => ?_⟩
  refine Safe.bind (hexchange r.2 l ⟨hslots, hblocks, hrest⟩) fun r l hX => ?_
  refine safe_ite.2 ⟨fun _ _ _ he => (nomatch he), fun hrv => ?_⟩
  refine Safe.bind (hrounds r.2 l (hX (Int.not_lt.1 hrv))) fun requests l hY => ?_
  refine Safe.bind (hend requests l hY) fun rv l hZ => ?_
  refine safe_ite.2 ⟨fun _ _ _ he => (nomatch he), fun hrv => ?_⟩
  rintro _ _ ⟨⟩
  exact hZ (Int.not_lt.1 hrv)

/-- The rest of `run`. -/
theorem planned_run {Z : List DccsRequest → Local → Prop} (hlive : ¬ R.live)
    (huntil : Safe (tracking R D) (plan.ok R) (untilEnd o params) {} fun exit l =>
      ∀ requests rv, exit = .ended requests rv → Z requests l)
    (hprint : ∀ requests l, Z requests l →
      Safe (tracking R D) (plan.ok R) (printSha1sum requests params.count) l fun _ _ => True) :
    Safe (tracking R D) (plan.ok R) (run o params) {} fun _ _ => True := by
  have hmanages : Manages Unplanned := ⟨fun _ => trivial, fun _ => trivial, fun _ => trivial⟩
  have hreleases : Releases Unplanned := ⟨fun _ => trivial, fun _ => trivial, fun _ => trivial⟩
  refine Safe.bind huntil fun exit l hZ => ?_
  cases exit with
  | end_ rv => trivial
  | outDisconnect rv => exact Tracking.unplanned hlive (hmanages.outDisconnect params rv)
  | outDeallocateBuffer requests rv =>
    exact Tracking.unplanned hlive (calls_outDeallocateBuffer hmanages hreleases requests params rv)
  | ended requests rv =>
    refine Safe.bind (hprint requests l (hZ requests rv rfl)) fun _ l _ => ?_
    exact Tracking.unplanned hlive (calls_outDeallocateBuffer hmanages hreleases requests params rv)

/-! ## The client -/

/-- After `m` data requests have been posted. -/
structure Posting (o : ByteOrder) (params : DccsParameters) (m : Nat) (requests : List DccsRequest)
    (l : Local) : Prop where
  length : requests.length = params.count
  requests : ∀ i < params.count, DataRequest o params l i (reqAt requests i)
  posted : l.sq.length = m
  polled : l.sWcs.length = (l.sq.filter (·.signaled)).length
  blocks : l.blocks.length = endBlock params
  loads : l.loads.length = fetched o params l

/-- The end message has been sent, and a completion polled for it. -/
structure Sent (o : ByteOrder) (params : DccsParameters) (requests : List DccsRequest) (l : Local) :
    Prop where
  length : requests.length = params.count
  requests : ∀ i < params.count, DataRequest o params l i (reqAt requests i)
  through : ClientThrough params l
  loads : l.loads.length = fetched o params l

/-- The first read stays the same while requests are posted. -/
theorem fetched_of_loads {l l' : Local} (h : l'.loads = l.loads) :
    fetched o params l' = fetched o params l := by
  unfold fetched
  rw [h]

/-- The clock readings of a request are no part of it. -/
theorem DataRequest.times {l : Local} {n : Nat} {request : DccsRequest}
    (h : DataRequest o params l n request) (start end_ : UInt64) :
    DataRequest o params l n { request with start, end_ } := by
  refine ⟨h.slot.of_same rfl rfl rfl rfl, fun hverb => ?_⟩
  obtain ⟨data, hdata, hinfos⟩ := h.fetched hverb
  refine ⟨data, hdata, fun hcount => ?_⟩
  obtain ⟨infos, hi, hsame⟩ := hinfos hcount
  refine ⟨infos, hi, ?_⟩
  show { storeMrInfo o infos n request with start, end_ } = { request with start, end_ }
  rw [hsame]

theorem Posting.set {m n : Nat} {requests : List DccsRequest} {l : Local}
    (h : Posting o params m requests l) (start end_ : UInt64) :
    Posting o params m (requests.set n { reqAt requests n with start, end_ }) l := by
  refine ⟨by rw [List.length_set, h.length], fun i hi => ?_, h.posted, h.polled, h.blocks, h.loads⟩
  rw [reqAt_set (by rw [h.length]; exact hi)]
  split
  · rename_i hni
    subst hni
    exact (h.requests n hi).times start end_
  · exact h.requests i hi

/-- What a client knows after the exchange. -/
theorem posting_of_fetched {requests requests' : List DccsRequest} {l l' : Local}
    (hverb : params.verb ≠ .Send) (hl : Allocated params requests l)
    (hf : Fetched D o requests params.count l requests' l') : Posting o params 0 requests' l' := by
  obtain ⟨hx, hsq, hsWcs, data, -, hfirst, hcase⟩ := hf
  have hrest := hl.rest
  have hloads₀ : l.loads = [] := by rw [hrest]
  have hsq₀ : l'.sq = [] := by rw [hsq, hrest]
  have hsWcs₀ : l'.sWcs = [] := by rw [hsWcs, hrest]
  have hblocks : l'.blocks.length = endBlock params := by
    rw [hx.blocks, hl.blocks, endBlock, if_neg hverb]
  have hdata : l'.loads[0]? = some data := by
    obtain ⟨rest, hrest'⟩ := hfirst
    rw [← hrest', hloads₀]
    rfl
  have hslots := hl.slots.extends hx.ext
  rcases hcase with ⟨hne, hsame, hloads⟩ | ⟨heq, hstored⟩
  · subst hsame
    refine ⟨hslots.length,
      fun i hi => ⟨hslots.slot i hi, fun _ => ⟨data, hdata, fun he => absurd he hne⟩⟩,
      by rw [hsq₀]; rfl,
      by rw [hsq₀, hsWcs₀]; rfl, hblocks, ?_⟩
    rw [fetched, if_neg hverb, hdata, hloads, hloads₀]
    exact (if_neg hne).symm
  · obtain ⟨-, ⟨infos, -, hreq, hloads⟩, -, -⟩ := hstored
    rw [hloads₀] at hloads
    have hinfos : l'.loads[1]? = some infos := by rw [hloads]; rfl
    subst hreq
    refine ⟨by simpa [storeMrInfos] using hslots.length, fun i hi => ?_, by rw [hsq₀]; rfl,
      by rw [hsq₀, hsWcs₀]; rfl, hblocks, ?_⟩
    · rw [storeMrInfos, reqAt_mapIdx (by rw [hslots.length]; exact hi), if_pos hi]
      exact ⟨(hslots.slot i hi).of_same rfl rfl rfl rfl,
        fun _ => ⟨data, hdata, fun _ => ⟨infos, hinfos, rfl⟩⟩⟩
    · rw [fetched, if_neg hverb, hdata, hloads]
      exact (if_pos heq).symm

theorem planned_exchange_client (h : Accepted params) (hrole : roleOf params = .client)
    (hlive : ¬ R.live) (requests : List DccsRequest) (l : Local) (hl : Allocated params requests l) :
    Safe (tracking R D) ((clientPlan o params).ok R) (exchangeMrInfo o requests params) l fun r l' =>
      0 ≤ r.1 → Posting o params 0 r.2 l' := by
  have hrest := hl.rest
  refine safe_ite.2 ⟨fun hverb => ?_, fun hverb => ?_⟩
  · have hverb : params.verb ≠ .Send := by rcases hverb with hv | hv <;> rw [hv] <;> decide
    rw [hrole]
    refine Safe.bind (Tracking.getRemoteMrInfo (by rw [hrest]; rfl)
      (fun hl => absurd hl hlive) ?_ ?_ (fun hl => absurd hl hlive)) ?_
    · intro l' recv k hk he hlen hspot
      have hrq : l.rq = [] := by rw [hrest]
      rw [hrq, List.length_nil, Nat.zero_add]
      rw [hl.blocks] at hspot
      exact ⟨hverb, hk, hlen, hspot, Nat.zero_le _⟩
    · intro l' p len k hk he hloads ha
      have hloads₀ : l.loads = [] := by rw [hrest]
      have hrq : l.rq = [] := by rw [hrest]
      rw [hloads₀, List.length_nil, Nat.zero_add] at hloads
      rw [hrq, List.length_nil, Nat.zero_add] at ha
      exact .inl ⟨hverb, k, hk, hloads, ha⟩
    · intro r l' hr
      refine safe_ite.2 ⟨fun hneg => Tracking.quiet.logError_bind fun h0 => ?_,
        fun _ h0 => posting_of_fetched hverb hl (hr.2 h0)⟩
      have h0 : 0 ≤ r.1 := h0
      omega
  · have hsend : params.verb = .Send := by
      have hnone := h.scanned.verb
      cases hv : params.verb <;> simp [hv] at hverb hnone ⊢
    refine fun _ => ⟨hl.slots.length, fun i hi => ⟨hl.slots.slot i hi, fun hv => absurd hsend hv⟩,
      by rw [hrest]; rfl, by rw [hrest]; rfl,
      by rw [hl.blocks, endBlock, if_pos hsend], ?_⟩
    rw [fetched, if_pos hsend, hrest]
    rfl

/-- Where the data request of turn `n` in round `r` stands in the queue. -/
theorem turn_lt {r n : Nat} (hr : r < params.repeat_) (hn : n < params.count) :
    r * params.count + n < total params := by
  have := Nat.mul_le_mul_right params.count (Nat.succ_le_of_lt hr)
  rw [Nat.succ_mul] at this
  show _ < params.repeat_ * params.count
  omega

theorem turn_mod {r n : Nat} (hn : n < params.count) :
    (r * params.count + n) % params.count = n := by
  rw [Nat.mul_comm, Nat.mul_add_mod, Nat.mod_eq_of_lt hn]

/-- A request whose verb is known is posted. -/
theorem requestWr_some {request : DccsRequest} (hverb : request.verb ≠ .None) (signaled : Bool) :
    ∃ wr, requestWr request signaled = some wr := by
  unfold requestWr
  cases hv : request.verb with
  | None => exact absurd hv hverb
  | Send | Read | Write => exact ⟨_, rfl⟩

theorem planned_sendAndWaitOne (h : Accepted params) (hcalls : R.calls) (hlive : ¬ R.live)
    {r n : Nat} (hr : r < params.repeat_) (hn : n < params.count) {s : SendState} {l : Local}
    (hs : Posting o params (r * params.count + n) s.requests l) :
    Safe (tracking R D) ((clientPlan o params).ok R) (sendAndWaitOne params.count n s) l fun s' l' =>
      Posting o params (r * params.count + n + 1) s'.requests l' := by
  have hrequest := hs.requests n hn
  have hverb : (reqAt s.requests n).verb ≠ .None := by
    rw [hrequest.slot.verb]
    exact h.scanned.verb
  simp only [sendAndWaitOne]
  generalize hsignaled : (if n = params.count - 1 then true else s.signaled) = signaled
  obtain ⟨wr, hwr⟩ := requestWr_some hverb signaled
  have hbit := (requestWr_fields hwr).signaled
  have hpost : postRequest (reqAt s.requests n) signaled = dccsRdmaPost wr := by
    unfold postRequest
    rw [hwr]
  rw [hpost]
  refine safe_bind.2 (Tracking.postSend ?_ (fun hl => absurd hl hlive) (fun hc => absurd hcalls hc) ?_)
  · rw [hs.posted]
    exact .data _ signaled (turn_lt hr hn) (by rwa [turn_mod hn]) hwr
  · have he : l.Extends { l with sq := l.sq ++ [wr] } :=
      { Local.Extends.refl l with sq := List.prefix_append _ _ }
    refine Tracking.untraced_bind hlive (by trivial) fun start =>
      safe_ite.2 ⟨fun hsig => ?_, fun hsig => ?_⟩
    · -- one completion more
      rw [hsig] at hbit
      have hpolled : ∀ wcs : List Wc, wcs.length = 1 →
          Posting o params (r * params.count + n + 1) s.requests
            { l with sq := l.sq ++ [wr], sWcs := l.sWcs ++ wcs } := by
        intro wcs hlen
        have he' : l.Extends { l with sq := l.sq ++ [wr], sWcs := l.sWcs ++ wcs } :=
          { he with sWcs := List.prefix_append _ _ }
        refine ⟨hs.length, fun i hi => (hs.requests i hi).extends he',
          by simp [hs.posted], ?_, hs.blocks, ?_⟩
        · simp [hs.polled, hbit, hlen]
        · rw [fetched_of_loads rfl]
          exact hs.loads
      refine Safe.bind
        (Tracking.sendComp (Q := fun _ l' => Posting o params (r * params.count + n + 1) s.requests l')
        (fun hl => absurd hl hlive) (fun _ wcs hone _ => hpolled wcs (hone hcalls)) fun wc _ =>
          hpolled [wc] rfl) fun rv l' hl' => ?_
      exact Tracking.untraced_bind hlive (by trivial) fun end_ =>
        (hl'.2.set start (reqAt s.requests n).end_).set _ end_
    · have hsig : wr.signaled = false := by
        rw [hbit]
        exact Bool.not_eq_true _ ▸ hsig
      have hposted : Posting o params (r * params.count + n + 1) s.requests { l with sq := l.sq ++ [wr] } := by
        refine ⟨hs.length, fun i hi => (hs.requests i hi).extends he,
          by simp [hs.posted], by simp [hs.polled, hsig], hs.blocks, ?_⟩
        rw [fetched_of_loads rfl]
        exact hs.loads
      exact hposted.set start (reqAt s.requests n).end_

theorem planned_clientRound (h : Accepted params) (hcalls : R.calls) (hlive : ¬ R.live) {r : Nat}
    (hr : r < params.repeat_) {requests : List DccsRequest} {l : Local}
    (hl : Posting o params (r * params.count) requests l) :
    Safe (tracking R D) ((clientPlan o params).ok R) (clientRound params r requests) l
      fun requests' l' =>
      Posting o params ((r + 1) * params.count) requests' l' := by
  have hreport : ∀ requests, Calls Untraced (do Call.report requests params; pure requests) :=
    fun _ => .bind ⟨trivial, fun _ => trivial⟩ fun _ => trivial
  refine Safe.bind (R := fun r' l' => Posting o params ((r + 1) * params.count) r'.2 l') ?_
    fun r' l' hl' => ?_
  · refine Tracking.untraced_bind hlive (by trivial) fun _ => ?_
    refine Safe.bind
      (safe_forN (fun n (s : SendState) l' => Posting o params (r * params.count + n) s.requests l')
      hl fun n s l' hn hs =>
      planned_sendAndWaitOne h hcalls hlive hr hn hs) fun s l' hs => ?_
    rw [← Nat.succ_mul] at hs
    exact Tracking.untraced_bind hlive (by trivial) fun _ => hs
  · refine safe_ite.2 ⟨fun _ => ?_, fun _ => ?_⟩
    · refine Tracking.untraced_bind hlive (by trivial) fun _ => ?_
      exact Tracking.untraced_bind hlive (by trivial) fun _ => hl'
    · exact Tracking.untraced_bind hlive (by trivial) fun _ => hl'

theorem planned_rounds_client (h : Accepted params) (hrole : roleOf params = .client)
    (hcalls : R.calls) (hlive : ¬ R.live) (requests : List DccsRequest) (l : Local)
    (hl : Posting o params 0 requests l) :
    Safe (tracking R D) ((clientPlan o params).ok R) (rounds requests params) l fun requests' l' =>
      Posting o params (total params) requests' l' := by
  unfold rounds
  rw [hrole]
  exact safe_forN (fun r requests l => Posting o params (r * params.count) requests l) (by rwa [Nat.zero_mul])
    fun r requests l hr hl => planned_clientRound h hcalls hlive hr hl

theorem planned_endMessage_client (hrole : roleOf params = .client) (hcalls : R.calls)
    (hlive : ¬ R.live) (requests : List DccsRequest) (l : Local)
    (hl : Posting o params (total params) requests l) :
    Safe (tracking R D) ((clientPlan o params).ok R) (endMessage params) l fun rv l' => 0 ≤ rv →
      Sent o params requests l' := by
  unfold endMessage
  rw [hrole]
  refine safe_bind.2 (Tracking.stackVar (fun hl => absurd hl hlive) fun buf hbuf => ?_)
  refine Safe.bind (R := fun rv l' => 0 ≤ rv → Sent o params requests l') ?_ fun rv l' hsent => ?_
  · refine safe_bind.2 (Tracking.regMsgs (fun hc => absurd hcalls hc) fun mr hmr => ?_)
    let l₁ : Local :=
      { l with
        blocks := l.blocks ++ [⟨buf.addr, syncEndMessage⟩]
        regions := l.regions ++ [⟨.msgs, buf, syncEndMessageLength, mr.rkey⟩] }
    have he₁ : l.Extends l₁ :=
      { Local.Extends.refl l with blocks := List.prefix_append _ _, regions := List.prefix_append _ _ }
    have hbuffer : Buffer l₁ mr buf (endBlock params) syncEndMessage := by
      rw [← hl.blocks]
      exact Tracking.buffer_pushed hbuf hmr
    refine Safe.bind (Tracking.sendStep (Q := fun r l' => 0 ≤ r.1 →
      Sent o params requests l') ?_ (fun hl => absurd hl hlive) ?_ ?_) ?_
    · exact .end_ hl.posted ⟨rfl, rfl, rfl, hbuffer.spot, hbuffer.bytesOf⟩
    · intro _ rv hrv l' h0
      have h0 : 0 ≤ rv := h0
      omega
    · intro wc _ _
      have he₂ : l.Extends { l₁ with
          sq := l₁.sq ++ [⟨.Send, buf.addr, syncEndMessageLength, some mr, 0, 0, true⟩]
          sWcs := l₁.sWcs ++ [wc] } :=
        { he₁ with sq := List.prefix_append _ _, sWcs := List.prefix_append _ _ }
      refine ⟨hl.length, fun i hi => (hl.requests i hi).extends he₂, ⟨?_, ?_⟩, ?_⟩
      · simp [hl.posted]
      · simp [hl.polled]
      · rw [fetched_of_loads rfl]
        exact hl.loads
    · rintro r l' hsent
      refine ⟨⟨trivial, fun hl => absurd hl hlive⟩, fun _ _ h0 => ?_⟩
      obtain ⟨hlen, hreq, hthrough, hloads⟩ := hsent h0
      exact ⟨hlen, fun i hi => (hreq i hi).extends { Local.Extends.refl l' with }, hthrough, hloads⟩
  · refine safe_ite.2 ⟨fun _ => ?_, fun _ => ?_⟩
    · refine Tracking.untraced_bind hlive (by trivial) fun _ => ?_
      exact Tracking.untraced_bind hlive (by trivial) fun _ => hsent
    · exact Tracking.untraced_bind hlive (by trivial) fun _ => hsent

theorem planned_print_client (h : Accepted params) (hlive : ¬ R.live) (requests : List DccsRequest)
    (l : Local) (hl : Sent o params requests l) :
    Safe (tracking R D) ((clientPlan o params).ok R) (printSha1sum requests params.count) l
      fun _ _ => True := by
  have hcount := h.checked.1
  have he : ∀ chunks, l.Extends { l with loads := l.loads ++ chunks } :=
    fun chunks => { Local.Extends.refl l with loads := List.prefix_append _ _ }
  have hfetched : ∀ chunks, fetched o params { l with loads := l.loads ++ chunks } =
    l.loads.length := by
    intro chunks
    rw [hl.loads]
    by_cases hverb : params.verb = .Send
    · rw [fetched, if_pos hverb, fetched, if_pos hverb]
    · obtain ⟨data, hdata, -⟩ := (hl.requests 0 hcount).fetched hverb
      exact fetched_extends (fun _ => hdata) (he chunks)
  refine Tracking.printSha1sum hlive hcount ⟨hl.length, fun i hi => (hl.requests i hi).slot⟩ ?_ ?_
  · intro chunks hi
    exact .inr ⟨hl.through, chunks.length, hi,
      ⟨_, ((hl.requests _ hi).slot).extends (he chunks), rfl⟩, rfl, by rw [hfetched]; simp⟩
  · intro chunks hlen
    refine ⟨hcount, hlen, fun i hi => ?_⟩
    rw [hfetched]
    show _ = (l.loads ++ chunks)[_]?
    rw [List.getElem?_append_right (Nat.le_add_right _ _), Nat.add_sub_cancel_left]

/-- **The client keeps to its plan.** -/
theorem planned_client (h : Accepted params) (hrole : roleOf params = .client) (hcalls : R.calls)
    (hlive : ¬ R.live) :
    Safe (tracking R D) ((clientPlan o params).ok R) (run o params) {} fun _ _ => True := by
  have huntil : Safe (tracking R D) ((clientPlan o params).ok R) (untilEnd o params) {} fun exit l =>
      ∀ requests rv, exit = .ended requests rv → Sent o params requests l :=
    planned_untilEnd h hcalls hlive (fun _ _ hp => hp) (planned_exchange_client h hrole hlive)
      (planned_rounds_client h hrole hcalls hlive)
      (planned_endMessage_client hrole hcalls hlive)
  exact planned_run hlive huntil (planned_print_client h hlive)

/-! ## The server -/

/-- After `m` receives, each with a completion. -/
structure Receiving (params : DccsParameters) (m : Nat) (requests : List DccsRequest) (l : Local) :
    Prop where
  slots : Slots params l requests
  posted : l.rq.length = m
  polled : l.rWcs.length = m
  blocks : l.blocks.length = endBlock params
  loads : l.loads = []

/-- The last receive, with a good completion, was not one of `recv_requests`. -/
structure Closed (params : DccsParameters) (requests : List DccsRequest) (l : Local) : Prop where
  slots : Slots params l requests
  posted : l.rq.length = dataMessages params + 1
  polled : l.rWcs.length = dataMessages params + 1
  good : ∃ wc, l.rWcs[dataMessages params]? = some wc ∧ wc.success
  loads : l.loads = []

theorem planned_exchange_server (h : Accepted params) (hrole : roleOf params = .server)
    (hlive : ¬ R.live) (requests : List DccsRequest) (l : Local) (hl : Allocated params requests l) :
    Safe (tracking R D) ((serverPlan o params).ok R) (exchangeMrInfo o requests params) l fun r l' =>
      0 ≤ r.1 → Receiving params 0 r.2 l' := by
  have hrest := hl.rest
  have hloads : l.loads = [] := by rw [hrest]
  have hrq : l.rq = [] := by rw [hrest]
  have hrWcs : l.rWcs = [] := by rw [hrest]
  refine safe_ite.2 ⟨fun hverb => ?_, fun hverb => ?_⟩
  · have hverb : params.verb ≠ .Send := by rcases hverb with hv | hv <;> rw [hv] <;> decide
    rw [hrole]
    refine Safe.bind (Tracking.sendLocalMrInfo (fun hl => absurd hl hlive) ?_
      (fun hl => absurd hl hlive) (fun hl => absurd hl hlive)) ?_
    · intro infos hinfos hsize l' wr k hk he hv hs hlen hbytes hspot
      have hsq : l.sq = [] := by rw [hrest]
      rw [hsq, List.length_nil, Nat.zero_add]
      rw [hl.blocks] at hspot hbytes
      exact ⟨hverb, requests, hl.slots.extends he, hk, hsize, hv, hs, hspot,
        ⟨infos, hinfos, hlen, hbytes⟩, Nat.zero_le _⟩
    · intro rv l' hrv
      refine safe_ite.2 ⟨fun hneg => Tracking.quiet.logError_bind fun h0 => ?_, fun _ h0 => ?_⟩
      · have h0 : 0 ≤ rv := h0
        omega
      · obtain ⟨hx, -, hrq', -, hrWcs', hloads'⟩ := hrv.2 h0
        refine ⟨hl.slots.extends hx.ext,
          by rw [hrq', hrq]; rfl, by rw [hrWcs', hrWcs]; rfl, ?_, hloads'.trans hloads⟩
        rw [hx.blocks, hl.blocks, endBlock, if_neg hverb]
  · have hsend : params.verb = .Send := by
      have hnone := h.scanned.verb
      cases hv : params.verb <;> simp [hv] at hverb hnone ⊢
    exact fun _ => ⟨hl.slots,
      by rw [hrq]; rfl, by rw [hrWcs]; rfl, by rw [hl.blocks, endBlock, if_pos hsend], hloads⟩

theorem planned_countFailure {failed : Prop} [Decidable failed] {failedCount : Int} {l : Local}
    {Q : Local → Prop} (hq : Q l) :
    Safe (tracking R D) (plan.ok R) (countFailure failed failedCount) l fun _ l' => Q l' :=
  safe_ite.2 ⟨fun _ => Tracking.quiet.logError_bind hq, fun _ => hq⟩

theorem planned_recvOne (hverb : params.verb = .Send) (hcalls : R.calls) (hlive : ¬ R.live)
    {r n : Nat} (hr : r < params.repeat_) (hn : n < params.count) {requests : List DccsRequest}
    {failedCount : Int} {l : Local} (hl : Receiving params (r * params.count + n) requests l) :
    Safe (tracking R D) ((serverPlan o params).ok R) (recvOne requests n failedCount) l fun _ l' =>
      Receiving params (r * params.count + n + 1) requests l' := by
  have hslot := hl.slots.slot n hn
  refine safe_bind.2 (Tracking.postRecv ?_ (fun hl => absurd hl hlive) (fun hc => absurd hcalls hc) ?_)
  · rw [hl.posted]
    refine .data _ ?_ (by rwa [turn_mod hn]) rfl
    rw [dataMessages, if_pos hverb]
    exact turn_lt hr hn
  · let l₁ : Local :=
      { l with rq := l.rq ++ [⟨(reqAt requests n).buf.addr, (reqAt requests n).length, (reqAt requests n).mr⟩] }
    have hpolled : ∀ wcs : List Wc, wcs.length = 1 →
        Receiving params (r * params.count + n + 1) requests { l₁ with rWcs := l₁.rWcs ++ wcs } := by
      intro wcs hlen
      have he : l.Extends { l₁ with rWcs := l₁.rWcs ++ wcs } :=
        { Local.Extends.refl l with rq := List.prefix_append _ _, rWcs := List.prefix_append _ _ }
      refine ⟨hl.slots.extends he, ?_, ?_, hl.blocks, hl.loads⟩
      · simp [l₁, hl.posted]
      · simp [l₁, hl.polled, hlen]
    refine Safe.bind (planned_countFailure (Q := (· = l₁)) rfl) ?_
    rintro failedCount _ rfl
    refine safe_bind.2 (safe_whileZero (Tracking.recvComp (fun hl => absurd hl hlive) ?_ ?_))
    · exact fun _ wcs hone _ => planned_countFailure (hpolled wcs (hone hcalls))
    · exact fun wc _ => planned_countFailure (hpolled [wc] rfl)

theorem planned_serverRound (hcalls : R.calls) (hlive : ¬ R.live) {r : Nat}
    (hr : r < params.repeat_) {requests : List DccsRequest} {l : Local}
    (hl : Receiving params (if params.verb = .Send then r * params.count else 0) requests l) :
    Safe (tracking R D) ((serverPlan o params).ok R) (serverRound params r requests) l
      fun requests' l' =>
      Receiving params (if params.verb = .Send then (r + 1) * params.count else 0) requests' l' := by
  unfold serverRound
  by_cases hverb : params.verb = .Send
  · rw [if_pos hverb] at hl ⊢
    simp only [hverb]
    have hloop : Safe (tracking R D) ((serverPlan o params).ok R)
      (forN params.count (recvOne requests) 0) l fun _ l' =>
        Receiving params (r * params.count + params.count) requests l' :=
      safe_forN (fun n _ l' => Receiving params (r * params.count + n) requests l') hl
        fun n _ l' hn hl' => planned_recvOne hverb hcalls hlive hr hn hl'
    rw [← Nat.succ_mul] at hloop
    have hround : Safe (tracking R D) ((serverPlan o params).ok R) (recvRequests requests params) l fun _ l' =>
        Receiving params ((r + 1) * params.count) requests l' := Safe.bind hloop fun _ _ hl' => hl'
    refine Safe.bind hround fun rv l' hl' => ?_
    exact safe_ite.2 ⟨fun _ => Tracking.quiet.logError_bind hl', fun _ => hl'⟩
  · rw [if_neg hverb] at hl ⊢
    cases hv : params.verb with
    | Send => exact absurd hv hverb
    | Read | Write | None => exact hl

theorem planned_rounds_server (hrole : roleOf params = .server) (hcalls : R.calls)
    (hlive : ¬ R.live) (requests : List DccsRequest) (l : Local)
    (hl : Receiving params 0 requests l) :
    Safe (tracking R D) ((serverPlan o params).ok R) (rounds requests params) l fun requests' l' =>
      Receiving params (dataMessages params) requests' l' := by
  unfold rounds
  rw [hrole]
  refine safe_forN (fun r requests l =>
    Receiving params (if params.verb = .Send then r * params.count else 0) requests l) ?_
    fun r requests l hr hl => planned_serverRound hcalls hlive hr hl
  rw [Nat.zero_mul, ite_self]
  exact hl

theorem planned_endMessage_server (hrole : roleOf params = .server) (hcalls : R.calls)
    (hlive : ¬ R.live) (requests : List DccsRequest) (l : Local)
    (hl : Receiving params (dataMessages params) requests l) :
    Safe (tracking R D) ((serverPlan o params).ok R) (endMessage params) l fun rv l' => 0 ≤ rv →
      Closed params requests l' := by
  unfold endMessage
  rw [hrole]
  refine safe_bind.2 (Tracking.stackVar (fun hl => absurd hl hlive) fun buf hbuf => ?_)
  refine Safe.bind (R := fun rv l' => 0 ≤ rv → Closed params requests l') ?_ fun rv l' hclosed => ?_
  · refine safe_bind.2 (Tracking.regMsgs (fun hc => absurd hcalls hc) fun mr hmr => ?_)
    let l₁ : Local :=
      { l with
        blocks := l.blocks ++ [⟨buf.addr, List.replicate syncEndMessageLength 0⟩]
        regions := l.regions ++ [⟨.msgs, buf, syncEndMessageLength, mr.rkey⟩] }
    have he₁ : l.Extends l₁ :=
      { Local.Extends.refl l with blocks := List.prefix_append _ _, regions := List.prefix_append _ _ }
    have hbuffer : Buffer l₁ mr buf (endBlock params) (List.replicate syncEndMessageLength 0) := by
      rw [← hl.blocks]
      exact Tracking.buffer_pushed hbuf hmr
    have hspot := hbuffer.spot
    rw [List.length_replicate] at hspot
    refine Safe.bind (Tracking.recvStep (Q := fun r l' => 0 ≤ r.1 →
      Closed params requests l') ?_ (fun hl => absurd hl hlive) ?_ ?_) ?_
    · exact .end_ hl.posted rfl hspot
    · intro _ rv hrv l' h0
      have h0 : 0 ≤ rv := h0
      omega
    · intro wc hwc _
      have he₂ : l.Extends { l₁ with
          rq := l₁.rq ++ [⟨buf.addr, syncEndMessageLength, some mr⟩]
          rWcs := l₁.rWcs ++ [wc] } :=
        { he₁ with rq := List.prefix_append _ _, rWcs := List.prefix_append _ _ }
      refine ⟨hl.slots.extends he₂, ?_, ?_, ⟨wc, ?_, hwc⟩, hl.loads⟩
      · simp [hl.posted]
      · simp [hl.polled]
      · show (l.rWcs ++ [wc])[_]? = _
        rw [← hl.polled]
        simp
    · rintro r l' hclosed
      refine ⟨⟨trivial, fun hl => absurd hl hlive⟩, fun _ _ h0 => ?_⟩
      obtain ⟨hslots, hrq, hrWcs, hgood, hloads⟩ := hclosed h0
      exact ⟨hslots.extends { Local.Extends.refl l' with }, hrq, hrWcs, hgood, hloads⟩
  · refine safe_ite.2 ⟨fun _ => ?_, fun _ => ?_⟩
    · refine Tracking.untraced_bind hlive (by trivial) fun _ => ?_
      exact Tracking.untraced_bind hlive (by trivial) fun _ => hclosed
    · exact Tracking.untraced_bind hlive (by trivial) fun _ => hclosed

theorem planned_print_server (h : Accepted params) (hlive : ¬ R.live) (requests : List DccsRequest)
    (l : Local) (hl : Closed params requests l) :
    Safe (tracking R D) ((serverPlan o params).ok R) (printSha1sum requests params.count) l
      fun _ _ => True := by
  have he : ∀ chunks, l.Extends { l with loads := l.loads ++ chunks } :=
    fun chunks => { Local.Extends.refl l with loads := List.prefix_append _ _ }
  refine Tracking.printSha1sum hlive h.checked.1 hl.slots ?_ ?_
  · intro chunks hi
    have hthrough : ServerThrough params l := by
      rw [ServerThrough, hl.polled]
      exact Nat.lt_succ_self _
    exact ⟨hthrough, chunks.length, hi, ⟨_, (hl.slots.slot _ hi).extends (he chunks), rfl⟩,
      rfl, by simp [hl.loads]⟩
  · intro chunks hlen
    refine ⟨hlen, fun i hi => ?_⟩
    show _ = (l.loads ++ chunks)[_]?
    rw [hl.loads, List.nil_append, Nat.zero_add]

/-- **The server keeps to its plan**, and what it has received last when it leaves the rounds well. -/
theorem planned_server_untilEnd (h : Accepted params) (hrole : roleOf params = .server)
    (hcalls : R.calls) (hlive : ¬ R.live) :
    Safe (tracking R D) ((serverPlan o params).ok R) (untilEnd o params) {} fun exit l =>
      ∀ requests rv, exit = .ended requests rv → Closed params requests l :=
  planned_untilEnd h hcalls hlive (fun _ _ hp => hp) (planned_exchange_server h hrole hlive)
    (planned_rounds_server hrole hcalls hlive)
    (planned_endMessage_server hrole hcalls hlive)

theorem planned_server (h : Accepted params) (hrole : roleOf params = .server) (hcalls : R.calls)
    (hlive : ¬ R.live) :
    Safe (tracking R D) ((serverPlan o params).ok R) (run o params) {} fun _ _ => True :=
  planned_run hlive (planned_server_untilEnd h hrole hcalls hlive) (planned_print_server h hlive)

end walk

end RdmaExec

end RdmaOpera
