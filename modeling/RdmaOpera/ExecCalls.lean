import RdmaOpera.Steady

/-!
# What the two processes of `rdma_exec` need at each call

`run` walked through a second time, now with nothing that fails: each call can be served (`Served`),
polls for something that was posted, posts from a region that is registered, and gives a region back
only when nothing is queued (`Timely`). Each process returns 1.
-/

namespace RdmaOpera

open Lib Prog

namespace RdmaExec

/-- The call comes in its turn. The exchange is over before a client sends and before a server
receives, and the request regions of a server stay registered until the end message is there. -/
def Timely (params : DccsParameters) (r : Role) (l : Local) : VOp → Prop
  | .postSend wr => (∃ mr, wr.mr = some mr ∧ mr.handle ∉ l.dereged) ∧
      (r = .client → params.verb ≠ .Send → 2 ≤ l.rWcs.length)
  | .postRecv recv => (∃ mr, recv.mr = some mr ∧ mr.handle ∉ l.dereged) ∧
      (r = .server → params.verb ≠ .Send → 2 ≤ l.sWcs.length)
  | .pollSend _ => l.sWcs.length < l.signaled
  | .pollRecv => l.rWcs.length < l.rq.length
  | .deregMr mr => l.Drained ∧ (r = .server → mr.handle < params.mrCount → ServerThrough params l)
  | .store .. => False
  | _ => True

/-- The call can be answered, and comes in its turn. -/
def Fit (params : DccsParameters) (r : Role) (l : Local) (op : VOp) : Prop :=
  l.Served op ∧ Timely params r l op

/-- Between the exchange and the end message. -/
structure Poised (params : DccsParameters) (r : Role) (l : Local) : Prop where
  dereged : ∀ j ∈ l.dereged, params.mrCount ≤ j ∧ j < l.regions.length
  exchanged : params.verb ≠ .Send → (r = .client → 2 ≤ l.rWcs.length) ∧
    (r = .server → 2 ≤ l.sWcs.length)
  sends : l.sWcs.length = l.signaled
  recvs : l.rWcs.length = l.rq.length
  signaled : r = .server → ∀ wr ∈ l.sq, wr.signaled

/-- Behind the end message. -/
structure Finished (params : DccsParameters) (r : Role) (l : Local) : Prop where
  drained : l.Drained
  exchanged : params.verb ≠ .Send → (r = .client → 2 ≤ l.rWcs.length) ∧
    (r = .server → 2 ≤ l.sWcs.length)
  client : r = .client → l.sq.length = total params + 1
  server : r = .server → l.rq.length = dataMessages params + 1

section fit
variable {o : ByteOrder} {params : DccsParameters} {r : Role} {D : Nat → List UInt8 → Prop}
  {l : Local} {requests : List DccsRequest} {α : Type}

/-! ## Single calls -/

theorem lenient_fit : Lenient (Fit params r) := by
  intro l op hop
  cases op <;> first | exact ⟨trivial, trivial⟩ | exact hop.elim

theorem fit_quiet : Quiet (tracking .steady D) (Fit params r) := Steady.quiet lenient_fit

/-- What is known of a program that may stop, together with what its calls need. -/
theorem fit_along {ok : Local → VOp → Prop} {p : VProg α} {Q Q' : α → Local → Prop}
    (h : Safe (tracking .successful D) ok p l Q)
    (h' : Safe (tracking .steady D) (Fit params r) p l Q') :
    Safe (tracking .steady D) (Fit params r) p l fun a t => Q a t ∧ Q' a t := by
  have hadm : ∀ l op a, (tracking .steady D).adm l op a → (tracking .successful D).adm l op a :=
    fun _ _ _ ha => ⟨ha.contract, ha.reads, ha.calls, ha.completions⟩
  exact (h.along h' rfl hadm).relax rfl (fun _ _ _ ha => ha) id fun _ _ hok => hok.2

theorem fit_untraced {op : VOp} (hop : Untraced op) {f : op.Ans → VProg α} {Q : α → Local → Prop}
    (hf : ∀ a, Safe (tracking .steady D) (Fit params r) (f a) l Q) :
    Safe (tracking .steady D) (Fit params r) (Prog.op (S := Verbs) op >>= f) l Q :=
  Steady.untraced_bind lenient_fit hop hf

/-- A region for a message. -/
theorem fit_regMsgs {p : Ptr} {len : Nat} {Q : Option Mr → Local → Prop}
    (hsome : ∀ mr : Mr, mr.handle = l.regions.length →
      Q (some mr) { l with regions := l.regions ++ [⟨.msgs, p, len, mr.rkey⟩] }) :
    Safe (tracking .steady D) (Fit params r) (dccsRegMr .msgs p len) l Q :=
  Steady.regMsgs lenient_fit ⟨.inl rfl, trivial⟩ hsome

/-- A poll for a request that leaves a completion. -/
theorem fit_sendComp {Q : Int → Local → Prop} (hlt : l.sWcs.length < l.signaled)
    (hgood : ∀ wc : Wc, Q 1 { l with sWcs := l.sWcs ++ [wc] }) :
    Safe (tracking .steady D) (Fit params r) (dccsRdmaSendComp 1) l fun rv l' => rv ≠ 0 ∧ Q rv l' :=
  Steady.sendComp lenient_fit ⟨Nat.one_pos, hlt⟩ hgood

theorem fit_recvComp {Q : Int → Local → Prop} (hlt : l.rWcs.length < l.rq.length)
    (hgood : ∀ wc : Wc, Q 1 { l with rWcs := l.rWcs ++ [wc] }) :
    Safe (tracking .steady D) (Fit params r) dccsRdmaRecvComp l fun rv l' => rv ≠ 0 ∧ Q rv l' :=
  Steady.recvComp lenient_fit ⟨trivial, hlt⟩ hgood

/-- A message sent and waited for. -/
theorem fit_sendStep {p : Ptr} {len : Nat} {mr : Mr} {e₁ e₂ : String} {Q : Int × Bool → Local → Prop}
    (hlive : mr.handle ∉ l.dereged) (hafter : r = .client → params.verb ≠ .Send → 2 ≤ l.rWcs.length)
    (hsends : l.sWcs.length = l.signaled)
    (hgood : ∀ wc : Wc, Q (1, true) { l with
      sq := l.sq ++ [⟨.Send, p.addr, len, some mr, 0, 0, true⟩], sWcs := l.sWcs ++ [wc] }) :
    Safe (tracking .steady D) (Fit params r) (RdmaOpera.sendStep p len (some mr) e₁ e₂) l Q := by
  refine Steady.sendStep lenient_fit ⟨trivial, ⟨mr, rfl, hlive⟩, hafter⟩ ⟨Nat.one_pos, ?_⟩ hgood
  show l.sWcs.length < ((l.sq ++ [_]).filter _).length
  rw [hsends, List.filter_append, List.length_append]
  exact Nat.lt_add_of_pos_right Nat.one_pos

theorem fit_recvStep {p : Ptr} {len : Nat} {mr : Mr} {e₁ e₂ : String} {Q : Int × Bool → Local → Prop}
    (hlive : mr.handle ∉ l.dereged) (hafter : r = .server → params.verb ≠ .Send → 2 ≤ l.sWcs.length)
    (hrecvs : l.rWcs.length = l.rq.length)
    (hgood : ∀ wc : Wc, Q (1, true) { l with
      rq := l.rq ++ [⟨p.addr, len, some mr⟩], rWcs := l.rWcs ++ [wc] }) :
    Safe (tracking .steady D) (Fit params r) (RdmaOpera.recvStep p len (some mr) e₁ e₂) l Q := by
  refine Steady.recvStep lenient_fit ⟨trivial, ⟨mr, rfl, hlive⟩, hafter⟩ ⟨trivial, ?_⟩ hgood
  show l.rWcs.length < (l.rq ++ [_]).length
  rw [hrecvs, List.length_append]
  exact Nat.lt_add_of_pos_right Nat.one_pos

/-! ## The buffers -/

/-- A plan that restricts nothing. -/
def anyPlan : Plan where
  send _ _ _ := True
  recv _ _ _ := True
  region _ _ := True
  send_extends _ _ := trivial
  recv_extends _ _ := trivial
  msgs _ := trivial

theorem fit_allocateGroup (hkeys : l.regions.length < 2 ^ 32) :
    Safe (tracking .steady D) (Fit params r) (allocateGroup params) l fun _ l' =>
      l'.regions.length = l.regions.length + 1 := by
  refine safe_bind.2 ⟨⟨sizeT_lt _, trivial⟩, fun buf hbuf => ?_⟩
  have hregions : ((tracking .steady D).upd l (.mallocRandom (bufferLength params)) buf).regions =
      l.regions := by
    cases buf <;> rfl
  refine safe_bind.2 (fit_quiet.dccsRegMr ⟨.inr (by rwa [hregions]), trivial⟩ fun a ha => ?_)
  cases a with
  | none => exact absurd (ha.calls trivial) (by simp [Unfailing])
  | some mr =>
    show (((tracking .steady D).upd l _ buf).regions ++ [_]).length = _
    rw [hregions, List.length_append]
    rfl

theorem fit_allocateBuffer (h : Accepted params) (hlen : requests.length = params.count)
    (hkeys : params.mrCount ≤ 2 ^ 32) :
    Safe (tracking .steady D) (Fit params r) (allocateBuffer requests params) {} fun res l =>
      res.1 = 0 ∧ Allocated params res.2 l ∧ l.regions.length = params.mrCount := by
  have hplanned : Safe (tracking .successful D) (anyPlan.ok .successful)
      (allocateBuffer requests params) {} _ :=
    Tracking.allocateBuffer h hlen trivial id fun _ _ _ _ => trivial
  refine (fit_along hplanned (safe_allocateBuffer h hlen
    (fun gs l => l.regions.length = gs.length) rfl fun gs l hgs hl => ?_)).mono fun res l hres => ?_
  · refine (fit_allocateGroup (by omega)).mono fun g l' hl' => ?_
    rw [hl', hl, List.length_append]
    rfl
  · obtain ⟨⟨hrv, hslots, hblocks, hregions, hrest⟩, -⟩ := hres
    exact ⟨hrv, ⟨hslots, hblocks, hrest⟩, hregions⟩

theorem send_of_not_remote (h : Accepted params)
    (hverb : ¬ (params.verb = .Read ∨ params.verb = .Write)) : params.verb = .Send := by
  have hnone := h.scanned.verb
  cases hv : params.verb <;> simp [hv] at hverb hnone ⊢

/-- The request regions have the first handles. -/
theorem slot_handle_lt {i : Nat} {request : DccsRequest} (h : Accepted params)
    (hi : i < params.count) (hslot : Slot params l i request) :
    ∃ mr, request.mr = some mr ∧ mr.handle < params.mrCount := by
  obtain ⟨-, -, bufBase, hg, -⟩ := hslot
  obtain ⟨mr, hmr, hhandle, -⟩ := hg.region
  exact ⟨mr, hmr, by rw [hhandle]; exact h.group_lt hi⟩

theorem Poised.live (h : Poised params r l) {mr : Mr} (hmr : mr.handle < params.mrCount) :
    mr.handle ∉ l.dereged := by
  intro hmem
  have := (h.dereged _ hmem).1
  omega

/-- Behind `allocate_buffer`. -/
theorem Allocated.poised (hl : Allocated params requests l) (hverb : params.verb = .Send) :
    Poised params r l := by
  rw [hl.rest]
  exact ⟨by simp, fun hne => absurd hverb hne, rfl, rfl, by simp⟩

theorem Allocated.idle (hl : Allocated params requests l) : l.Idle := by
  rw [hl.rest]
  exact ⟨rfl, rfl, by simp⟩

/-! ## The exchange -/

/-- In the exchange a client only receives, and a server only sends. -/
def exchangeOnly (r : Role) : Plan where
  send _ _ wr := r = .server ∧ wr.signaled
  recv _ _ _ := r = .client
  region _ _ := True
  load _ _ _ := r = .client
  send_extends _ h := h
  recv_extends _ h := h
  msgs _ := trivial

theorem fit_exchange {p : VProg α} {Q : α → Local → Prop} {m : Nat}
    (hm : r = .server → params.mrCount ≤ m) (hsig : ∀ wr ∈ l.sq, wr.signaled)
    (hsafe : Safe (tracking .steady D)
      (fun l op => (exchangeOnly r).ok .steady l op ∧ Steady.Late m op) p l Q) :
    Safe (tracking .steady D) (Fit params r) p l fun a t => Q a t ∧ ∀ wr ∈ t.sq, wr.signaled := by
  have hplan : ∀ l k wr, (exchangeOnly r).send l k wr → wr.signaled := fun _ _ _ hs => hs.2
  refine (Steady.timely hplan hsig hsafe).relax rfl (fun _ _ _ ha => ha) id ?_
  rintro l op ⟨hallows, hserved, hdue, hlate⟩
  refine ⟨hserved, ?_⟩
  cases op with
  | postSend wr =>
    obtain ⟨hserver, -⟩ : r = .server ∧ wr.signaled := hallows
    refine ⟨hdue, fun hclient => ?_⟩
    rw [hserver] at hclient
    cases hclient
  | postRecv recv =>
    have hclient : r = .client := hallows
    refine ⟨hdue, fun hserver => ?_⟩
    rw [hclient] at hserver
    cases hserver
  | pollSend num => exact hdue
  | pollRecv => exact hdue
  | deregMr mr =>
    exact ⟨hdue, fun hs hlt => absurd hlt (Nat.not_lt.2 ((hm hs).trans (hlate mr rfl)))⟩
  | _ => trivial

/-- Behind the exchange, two regions more have come and gone. -/
theorem dereged_of_exchanged {l' : Local} (hl : Allocated params requests l)
    (hregions : l.regions.length = params.mrCount) (hx : Exchanged l l') :
    ∀ j ∈ l'.dereged, params.mrCount ≤ j ∧ j < l'.regions.length := by
  have hdereged : l.dereged = [] := by rw [hl.rest]
  have hlength := hx.regions
  intro j hj
  rw [hx.dereged, hdereged, List.nil_append, List.singleton_append] at hj
  rcases List.mem_cons.1 hj with rfl | hj
  · omega
  · rw [List.mem_singleton.1 hj]
    omega

/-- A client fetches the addresses, if the count announced is its own. -/
theorem fit_exchange_client (h : Accepted params) (hrole : roleOf params = .client)
    (hsize : params.count * mrInfoSize < 2 ^ 64)
    (hcount : ∀ data, D 0 data → o.nat data = params.count) (hl : Allocated params requests l)
    (hregions : l.regions.length = params.mrCount) :
    Safe (tracking .steady D) (Fit params .client) (exchangeMrInfo o requests params) l
      fun res l' => 0 ≤ res.1 ∧ Posting o params 0 res.2 l' ∧ Poised params .client l' := by
  have hrest := hl.rest
  have hplanned := planned_exchange_client (o := o) (R := .successful) (D := D) h hrole id requests l hl
  have hrq : l.rq = [] := by rw [hrest]
  have hrWcs : l.rWcs = [] := by rw [hrest]
  have hsq : l.sq = [] := by rw [hrest]
  have hfit : Safe (tracking .steady D) (Fit params .client) (exchangeMrInfo o requests params) l
      fun res l' => 0 ≤ res.1 ∧ (Posting o params 0 res.2 l' → Poised params .client l') := by
    refine safe_ite.2 ⟨fun hverb => ?_, fun hverb => ?_⟩
    · have hverb : params.verb ≠ .Send := by rcases hverb with hv | hv <;> rw [hv] <;> decide
      have hget : Safe (tracking .steady D) ((exchangeOnly .client).ok .steady)
          (getRemoteMrInfo o requests params.count) l _ :=
        Tracking.getRemoteMrInfo hl.idle.recvs (fun _ => hl.idle) (fun _ _ _ _ _ _ _ => rfl)
          (fun _ _ _ _ _ _ _ _ => rfl) fun _ => hsize
      rw [hrole]
      refine Safe.bind (fit_exchange (m := 0) (fun hs => absurd hs (by decide)) (by simp [hsq])
        (hget.relax rfl (fun _ _ _ ha => ha) id fun _ _ hok => ⟨hok, fun _ _ => Nat.zero_le _⟩)) ?_
      rintro res l' ⟨⟨hrv, hfetched⟩, -⟩
      have h0 := hrv trivial trivial
      obtain ⟨hx, -, -, data, hdata, -, hcase⟩ := hfetched h0
      refine safe_ite.2 ⟨fun hneg => absurd h0 (Int.not_le.2 hneg), fun _ => ⟨h0, fun hp => ?_⟩⟩
      rcases hcase with ⟨hne, -, -⟩ | ⟨-, hstored⟩
      · rw [hrq] at hdata
        exact absurd (hcount data hdata) hne
      · have hposted := hstored.rq
        have hpolled := hstored.rWcs
        rw [hrq] at hposted
        rw [hrWcs] at hpolled
        refine ⟨dereged_of_exchanged hl hregions hx, fun _ => ⟨fun _ => ?_, fun hs => absurd hs (by decide)⟩,
          hp.polled, hpolled.trans hposted.symm, fun hs => absurd hs (by decide)⟩
        exact hpolled.ge
    · exact ⟨Int.le_refl 0, fun _ => hl.poised (send_of_not_remote h hverb)⟩
  refine (fit_along hplanned hfit).mono ?_
  rintro res l' ⟨hposting, h0, hpoised⟩
  exact ⟨h0, hposting h0, hpoised (hposting h0)⟩

/-- The regions of the requests are not given back in the exchange. -/
theorem late_sendLocalMrInfo (h : Accepted params) (hsize : params.count * mrInfoSize < 2 ^ 64)
    (hl : Allocated params requests l) (hregions : l.regions.length = params.mrCount) :
    Safe (tracking .steady D)
      (fun l op => (exchangeOnly .server).ok .steady l op ∧ Steady.Late params.mrCount op)
      (sendLocalMrInfo o requests params.count) l fun rv l' => 0 ≤ rv ∧ Announced l l' := by
  have hmrs : ∀ n < params.count, (reqAt requests n).mr.isSome := by
    intro n hn
    obtain ⟨mr, hmr, -⟩ := slot_handle_lt h hn (hl.slots.slot n hn)
    rw [hmr]
    rfl
  have hsend : Safe (tracking .steady fun _ _ => True) ((exchangeOnly .server).ok .steady)
      (sendLocalMrInfo o requests params.count) l _ :=
    Tracking.sendLocalMrInfo (fun _ => hl.idle) (fun _ _ _ _ _ _ _ _ _ hs _ _ _ => ⟨rfl, hs⟩)
      (fun _ => hsize) fun _ => hmrs
  have hdone := hsend.mono fun rv l' (hrv : (True → True → 0 ≤ rv) ∧ (0 ≤ rv → Announced l l')) =>
    And.intro (hrv.1 trivial trivial) (hrv.2 (hrv.1 trivial trivial))
  exact Steady.late hdone fun rv l' hrv j hj =>
    (dereged_of_exchanged hl hregions hrv.2.exchanged j hj).1

/-- A server announces its addresses. -/
theorem fit_exchange_server (h : Accepted params) (hrole : roleOf params = .server)
    (hsize : params.count * mrInfoSize < 2 ^ 64) (hl : Allocated params requests l)
    (hregions : l.regions.length = params.mrCount) :
    Safe (tracking .steady D) (Fit params .server) (exchangeMrInfo o requests params) l
      fun res l' => 0 ≤ res.1 ∧ Receiving params 0 res.2 l' ∧ Poised params .server l' := by
  have hplanned := planned_exchange_server (o := o) (R := .successful) (D := D) h hrole id requests l hl
  have hsq : l.sq = [] := by rw [hl.rest]
  have hsWcs : l.sWcs = [] := by rw [hl.rest]
  have hfit : Safe (tracking .steady D) (Fit params .server) (exchangeMrInfo o requests params) l
      fun res l' => 0 ≤ res.1 ∧ (Receiving params 0 res.2 l' → Poised params .server l') := by
    refine safe_ite.2 ⟨fun hverb => ?_, fun hverb => ?_⟩
    · rw [hrole]
      refine Safe.bind (fit_exchange (fun _ => Nat.le_refl _) (by simp [hsq])
        (late_sendLocalMrInfo h hsize hl hregions)) ?_
      rintro rv l' ⟨⟨h0, ha⟩, hsig⟩
      refine safe_ite.2 ⟨fun hneg => absurd h0 (Int.not_le.2 hneg), fun _ => ⟨h0, fun hr => ?_⟩⟩
      have hposted := ha.sq
      have hpolled := ha.sWcs
      rw [hsq] at hposted
      rw [hsWcs] at hpolled
      refine ⟨dereged_of_exchanged hl hregions ha.exchanged, fun _ => ⟨fun hc => absurd hc (by decide),
        fun _ => hpolled.ge⟩, ?_, hr.polled.trans hr.posted.symm, fun _ => hsig⟩
      rw [Local.signaled, List.filter_eq_self.2 hsig]
      exact hpolled.trans hposted.symm
    · exact ⟨Int.le_refl 0, fun _ => hl.poised (send_of_not_remote h hverb)⟩
  refine (fit_along hplanned hfit).mono ?_
  rintro res l' ⟨hreceiving, h0, hpoised⟩
  exact ⟨h0, hreceiving h0, hpoised (hreceiving h0)⟩

/-! ## The rounds -/

theorem fit_sendAndWaitOne (h : Accepted params) {n : Nat} (hn : n < params.count) {s : SendState}
    (hslot : Slot params l n (reqAt s.requests n)) (hp : Poised params .client l) :
    Safe (tracking .steady D) (Fit params .client) (sendAndWaitOne params.count n s) l
      fun _ l' => Poised params .client l' := by
  have hverb : (reqAt s.requests n).verb ≠ .None := by
    rw [hslot.verb]
    exact h.scanned.verb
  obtain ⟨mr, hmr, hhandle⟩ := slot_handle_lt h hn hslot
  simp only [sendAndWaitOne]
  generalize hsignaled : (if n = params.count - 1 then true else s.signaled) = signaled
  obtain ⟨wr, hwr⟩ := requestWr_some hverb signaled
  have hfields := requestWr_fields hwr
  have hpost : postRequest (reqAt s.requests n) signaled = dccsRdmaPost wr := by
    unfold postRequest
    rw [hwr]
  rw [hpost]
  refine safe_bind.2 (fit_quiet.dccsRdmaPost ⟨trivial, ⟨mr, hfields.mr.trans hmr, hp.live hhandle⟩,
    fun _ hne => (hp.exchanged hne).1 rfl⟩ fun rv ha => ?_)
  obtain rfl : rv = 0 := ha.calls trivial
  let l₁ : Local := { l with sq := l.sq ++ [wr] }
  have hcount : l₁.signaled = l.signaled + if signaled = true then 1 else 0 := by
    rw [Local.signaled, List.filter_append, List.length_append, ← hfields.signaled]
    cases hb : wr.signaled <;> simp [Local.signaled, hb]
  refine fit_untraced (by trivial) fun start => safe_ite.2 ⟨fun hsig => ?_, fun hsig => ?_⟩
  · rw [if_pos hsig] at hcount
    refine Safe.bind (fit_sendComp (l := l₁) (Q := fun _ l' => Poised params .client l') ?_
      fun wc => ?_) fun rv l' hl' => fit_untraced (by trivial) fun end_ => hl'.2
    · rw [hcount, ← hp.sends]
      exact Nat.lt_succ_self _
    · refine ⟨hp.dereged, fun hne => ⟨(hp.exchanged hne).1, fun hs => absurd hs (by decide)⟩, ?_, hp.recvs,
        fun hs => absurd hs (by decide)⟩
      show (l.sWcs ++ [wc]).length = l₁.signaled
      rw [hcount, List.length_append, hp.sends]
      rfl
  · rw [if_neg hsig] at hcount
    exact ⟨hp.dereged, hp.exchanged, hp.sends.trans hcount.symm, hp.recvs, fun hs => absurd hs (by decide)⟩

theorem fit_rounds_client (h : Accepted params) (hrole : roleOf params = .client)
    (hl : Posting o params 0 requests l) (hp : Poised params .client l) :
    Safe (tracking .steady D) (Fit params .client) (rounds requests params) l fun requests' l' =>
      Posting o params (total params) requests' l' ∧ Poised params .client l' := by
  have hstart : Posting o params (0 * params.count) requests l := by rwa [Nat.zero_mul]
  unfold rounds
  rw [hrole]
  refine safe_forN (fun r requests l => Posting o params (r * params.count) requests l ∧
    Poised params .client l) ⟨hstart, hp⟩ fun r requests l hr hl => ?_
  refine Safe.bind (R := fun r' l' => Posting o params ((r + 1) * params.count) r'.2 l' ∧
    Poised params .client l') ?_ fun r' l' hl' => ?_
  · refine fit_untraced (by trivial) fun _ => ?_
    refine Safe.bind (safe_forN (fun n (s : SendState) l' =>
      Posting o params (r * params.count + n) s.requests l' ∧ Poised params .client l') hl
      fun n s l' hn hs => ?_) fun s l' hs => ?_
    · exact fit_along
        (planned_sendAndWaitOne (R := .successful) (D := D) h trivial id hr hn hs.1)
        (fit_sendAndWaitOne h hn (hs.1.requests n hn).slot hs.2)
    · rw [← Nat.succ_mul] at hs
      exact fit_untraced (by trivial) fun _ => hs
  · refine safe_ite.2 ⟨fun _ => ?_, fun _ => ?_⟩
    · exact fit_untraced (by trivial) fun _ => fit_untraced (by trivial) fun _ => hl'
    · exact fit_untraced (by trivial) fun _ => hl'

theorem fit_countFailure {failed : Prop} [Decidable failed] {failedCount : Int} {Q : Local → Prop}
    (hq : Q l) :
    Safe (tracking .steady D) (Fit params r) (countFailure failed failedCount) l fun _ l' => Q l' :=
  safe_ite.2 ⟨fun _ => fit_quiet.logError_bind hq, fun _ => hq⟩

theorem fit_recvOne (h : Accepted params) (hsend : params.verb = .Send) {n : Nat}
    (hn : n < params.count) (hslot : Slot params l n (reqAt requests n)) {failedCount : Int}
    (hp : Poised params .server l) :
    Safe (tracking .steady D) (Fit params .server) (recvOne requests n failedCount) l
      fun _ l' => Poised params .server l' := by
  obtain ⟨mr, hmr, hhandle⟩ := slot_handle_lt h hn hslot
  refine safe_bind.2 (fit_quiet.dccsRdmaRecv ⟨trivial, ⟨mr, hmr, hp.live hhandle⟩,
    fun _ hne => absurd hsend hne⟩ fun rv ha => ?_)
  obtain rfl : rv = 0 := ha.calls trivial
  let l₁ : Local :=
    { l with rq := l.rq ++ [⟨(reqAt requests n).buf.addr, (reqAt requests n).length, (reqAt requests n).mr⟩] }
  have hlength : l₁.rq.length = l₁.rWcs.length + 1 := by
    show (l.rq ++ [_]).length = l.rWcs.length + 1
    rw [hp.recvs, List.length_append]
    rfl
  refine Safe.bind (fit_countFailure (Q := (· = l₁)) rfl) ?_
  rintro failedCount _ rfl
  refine safe_bind.2 (safe_whileZero (fit_recvComp (by omega) fun wc => fit_countFailure ?_))
  refine ⟨hp.dereged, fun hne => absurd hsend hne, hp.sends, ?_, hp.signaled⟩
  show (l.rWcs ++ [wc]).length = l₁.rq.length
  rw [hlength, List.length_append]
  rfl

theorem fit_rounds_server (h : Accepted params) (hrole : roleOf params = .server)
    (hl : Receiving params 0 requests l) (hp : Poised params .server l) :
    Safe (tracking .steady D) (Fit params .server) (rounds requests params) l fun requests' l' =>
      Receiving params (dataMessages params) requests' l' ∧ Poised params .server l' := by
  unfold rounds
  rw [hrole]
  refine safe_forN (fun r requests l => Receiving params
    (if params.verb = .Send then r * params.count else 0) requests l ∧ Poised params .server l) ?_
      fun r requests l hr hl => ?_
  · rw [Nat.zero_mul, ite_self]
    exact ⟨hl, hp⟩
  unfold serverRound
  by_cases hverb : params.verb = .Send
  · rw [if_pos hverb] at hl ⊢
    simp only [hverb]
    have hloop : Safe (tracking .steady D) (Fit params .server)
        (forN params.count (recvOne requests) 0) l fun _ l' =>
          Receiving params (r * params.count + params.count) requests l' ∧ Poised params .server l' :=
      safe_forN (fun n _ l' => Receiving params (r * params.count + n) requests l' ∧
        Poised params .server l') hl fun n _ l' hn hl' =>
          fit_along (planned_recvOne (o := .little) (R := .successful) (D := D) hverb trivial id hr hn
            hl'.1) (fit_recvOne h hverb hn (hl'.1.slots.slot n hn) hl'.2)
    rw [← Nat.succ_mul] at hloop
    have hround : Safe (tracking .steady D) (Fit params .server) (recvRequests requests params) l
        fun _ l' => Receiving params ((r + 1) * params.count) requests l' ∧ Poised params .server l' :=
      Safe.bind hloop fun _ _ hl' => hl'
    refine Safe.bind hround fun rv l' hl' => ?_
    exact safe_ite.2 ⟨fun _ => fit_quiet.logError_bind hl', fun _ => hl'⟩
  · rw [if_neg hverb] at hl ⊢
    cases hv : params.verb with
    | Send => exact absurd hv hverb
    | Read | Write | None => exact hl

end fit

end RdmaExec

end RdmaOpera
