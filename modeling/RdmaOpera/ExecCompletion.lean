import RdmaOpera.DataAgreement
import RdmaOpera.ExecReturn
import RdmaOpera.Handshake

/-!
# `rdma_exec` comes to its end

A client and a server that are meant for each other, every interleaving of their calls and of the
network, while nothing fails. A request at the head of a send queue is carried out, or is a message
that waits for its receive, never rejected (`effect_ready`): the server's regions outlive the data
requests. Two processes never wait for each other (`not_stuck`), and no run goes on for ever. When
both have returned, both return 1, the requests agree, and both have hashed the same.
-/

namespace RdmaOpera

open Lib Prog

namespace RdmaExec

section completion
variable {o : ByteOrder} {client server : DccsParameters} {net : Net}

/-! ## The joint invariant -/

/-- While nothing fails: on top of `Agreed`, the connection stands, the server's request regions are
registered until the last data request is through, and the exchange comes before everything else. -/
structure Underway (o : ByteOrder) (client server : DccsParameters) (net : Net) : Prop where
  agreed : Agreed o client server net
  standing : net.Standing
  granted : ∀ j ∈ (net.loc .server).dereged, j < server.mrCount →
    total client ≤ (net.done .client).length
  clientOrder : client.verb ≠ .Send → 0 < (net.loc .client).sq.length →
    2 ≤ (net.loc .client).rWcs.length
  serverOrder : client.verb ≠ .Send → 0 < (net.loc .server).rq.length →
    2 ≤ (net.loc .server).sWcs.length

/-- What each call has to meet. -/
def execOk (o : ByteOrder) (client server : DccsParameters) (r : Role) (l : Local) (op : VOp) :
    Prop :=
  (execPlan o client server r).allows l op ∧ Fit (paramsOf client server r) r l op

theorem underway_start : Underway o client server {} where
  agreed := agreed_start
  standing := ⟨rfl, by simp, by simp⟩
  granted := by simp
  clientOrder := by simp
  serverOrder := by simp

/-! ## Counting -/

/-- How far the queues can get. -/
structure Counted (client server : DccsParameters) (net : Net) : Prop where
  clientSent : (net.loc .client).sq.length ≤ total client + 1
  serverPosted : (net.loc .server).rq.length ≤ dataMessages server + 1
  clientPosted : (net.loc .client).rq.length ≤ 2
  serverSent : (net.loc .server).sq.length ≤ 2
  noExchange : client.verb = .Send →
    (net.loc .client).rq.length = 0 ∧ (net.loc .server).sq.length = 0
  arrived : (net.host .client).rdone = (net.host .server).sdone
  marked : total client < (net.host .client).sdone ↔ dataMessages server < (net.host .server).rdone

theorem counted (h : Matched client server) (ht : Tracked (execPlan o client server) net)
    (hb : net.broken = false) : Counted client server net := by
  have hclient : (clientPlan o client).Kept (net.loc .client) := ht.kept .client
  have hserver : (serverPlan o server).Kept (net.loc .server) := ht.kept .server
  obtain ⟨hcs, hsr, -⟩ := ht.holds.standing hb .client
  obtain ⟨hss, hcr, -⟩ := ht.holds.standing hb .server
  constructor
  · refine length_le_of_getElem? fun k wr hk => ?_
    have hplan : ClientSends o client (net.loc .client) k wr := hclient.sends k wr hk
    cases hplan with
    | data _ _ hlt _ _ => omega
    | end_ he _ => omega
  · refine length_le_of_getElem? fun k recv hk => ?_
    have hplan : ServerReceives server (net.loc .server) k recv := hserver.recvs k recv hk
    cases hplan with
    | data _ hlt _ _ => omega
    | end_ he _ _ => omega
  · exact length_le_of_getElem? fun k recv hk => (hclient.recvs k recv hk).2.lt
  · refine length_le_of_getElem? fun k wr hk => ?_
    obtain ⟨-, requests, -, hplan⟩ := hserver.sends k wr hk
    exact hplan.lt
  · intro hverb
    constructor
    · exact Nat.le_zero.1 (length_le_of_getElem? fun k recv hk =>
        absurd hverb (hclient.recvs k recv hk).1)
    · exact Nat.le_zero.1 (length_le_of_getElem? fun k wr hk =>
        absurd (h.verb.trans hverb) (hserver.sends k wr hk).1)
  · have hcr : (net.host .client).rdone = (net.msgs .server).length := hcr
    rw [hcr, hss, ht.holds.msgs_eq_done fun wr hwr => server_sends hserver hwr]
  · have hsr : (net.host .server).rdone = (net.msgs .client).length := hsr
    rw [hcs, hsr]
    exact marked_iff h ht

/-! ## Requests -/

/-- The receive that the client's next message would fill. -/
theorem receive_fits (h : Matched client server) (ht : Tracked (execPlan o client server) net)
    (hb : net.broken = false) {wr : SendWr}
    (hwr : ClientSends o client (net.loc .client) (net.host .client).sdone wr) (hverb : wr.verb = .Send)
    {recv : RecvWr} (hrecv : (net.loc .server).rq[(net.host .server).rdone]? = some recv) :
    wr.len ≤ recv.len ∧ ∃ y, (net.loc .server).spot recv.mr recv.addr recv.len = some y := by
  have hcounted := counted h ht hb
  have hplan : ServerReceives server (net.loc .server) (net.host .server).rdone recv :=
    (ht.kept .server).recvs _ recv hrecv
  obtain ⟨hsdone, hrdone, -⟩ := ht.holds.standing hb .client
  have hrdone : (net.host .server).rdone = (net.msgs .client).length := hrdone
  -- both ends have come to the same message
  have hsame : client.verb = .Send → (net.host .server).rdone = (net.host .client).sdone := by
    intro hsend
    rw [hrdone, hsdone, client_msgs ht hsend]
  cases hwr with
  | data request signaled hk hrequest hwr =>
    have hfields := requestWr_fields hwr
    have hsend : client.verb = .Send :=
      (hfields.verb.trans hrequest.slot.verb).symm.trans hverb
    cases hplan with
    | end_ he _ _ =>
      rw [hsame hsend, h.dataMessages_eq, dataMessages, if_pos hsend] at he
      omega
    | data peer _ hslot hr =>
      have hspot := hslot.spot h.serverAccepted.countPerMr_pos h.serverSize
      rw [← hslot.length] at hspot
      rw [hr, hfields.len, hrequest.slot.length, hslot.length, h.length]
      rw [hslot.length, h.length] at hspot
      exact ⟨Nat.le_refl _, _, hspot⟩
  | end_ he hend =>
    cases hplan with
    | data peer hlt _ _ =>
      have hsend : client.verb = .Send := by
        by_contra hne
        rw [h.dataMessages_eq, dataMessages, if_neg hne] at hlt
        omega
      rw [hsame hsend, h.dataMessages_eq, dataMessages, if_pos hsend] at hlt
      omega
    | end_ _ hlen hspot =>
      rw [hend.len, hlen]
      rw [hlen] at hspot
      exact ⟨Nat.le_refl _, _, hspot⟩

/-- The remote side of a data request is there: the server has not given its region back. -/
theorem effect_remote (h : Matched client server) (ht : Tracked (execPlan o client server) net)
    (hU : Underway o client server net) {wr : SendWr} {request : DccsRequest} {signaled : Bool}
    (hwr : (net.loc .client).sq[(net.host .client).sdone]? = some wr)
    (hk : (net.host .client).sdone < total client)
    (hrequest : DataRequest o client (net.loc .client)
      ((net.host .client).sdone % client.count) request)
    (hfields : SameFields request signaled wr) (hverb : client.verb ≠ .Send) :
    ∃ t, net.effect .client wr = some (.carry t) := by
  have hmod := Nat.mod_lt (net.host .client).sdone h.clientAccepted.checked.1
  have hspot := hrequest.slot.spot h.clientAccepted.countPerMr_pos h.clientSize
  rw [← hfields.mr, ← hfields.addr, ← hrequest.slot.length, ← hfields.len] at hspot
  have hlive := hU.standing.liveSpot_send (Nat.le_refl _) hwr hspot
  obtain ⟨peer, mr, hslot, hmr, haddr, hrkey⟩ := hU.agreed.informed.remote h hmod hrequest hverb
  have hremote := hfields.remote (by rw [hrequest.slot.verb]; exact hverb)
  have hnone := h.clientAccepted.scanned.verb
  have hgroup : (net.host .client).sdone % client.count / countPerMr server ∉
      (net.loc .server).dereged := by
    intro hmem
    have hlt := h.serverAccepted.group_lt (show (net.host .client).sdone % client.count < server.count by
      rwa [h.count])
    have := hU.granted _ hmem hlt
    rw [(ht.holds.standing hU.standing.unbroken .client).1] at hk
    omega
  have hmsgs : accessOf server.verb ≠ .msgs := by
    rw [h.verb]
    cases hv : client.verb <;> simp [hv, accessOf] at hverb hnone ⊢
  have hresolved := hslot.remote h.serverAccepted.countPerMr_pos h.serverSize
    h.serverAccepted.checked.2.1 (ht.kept .server).keys hmsgs hmr hgroup
  rw [h.verb, h.length, ← hrkey, ← haddr, ← hremote.1, ← hremote.2, ← hrequest.slot.length,
    ← hfields.len] at hresolved
  have hv : wr.verb = client.verb := hfields.verb.trans hrequest.slot.verb
  cases hc : client.verb with
  | None => exact absurd hc hnone
  | Send => exact absurd hc hverb
  | Write =>
    rw [hc] at hv hresolved
    have hresolved : (net.loc Role.client.peer).remote .write wr.rkey wr.raddr.toNat wr.len = _ := hresolved
    simp only [Net.effect, hv, hlive, hresolved]
    exact ⟨_, rfl⟩
  | Read =>
    rw [hc] at hv hresolved
    have hresolved : (net.loc Role.client.peer).remote .read wr.rkey wr.raddr.toNat wr.len = _ := hresolved
    simp only [Net.effect, hv, hlive, hresolved]
    exact ⟨_, rfl⟩

/-- **No request is rejected.** -/
theorem effect_ready (h : Matched client server) (ht : Tracked (execPlan o client server) net)
    (hU : Underway o client server net) {r : Role} {wr : SendWr}
    (hwr : (net.loc r).sq[(net.host r).sdone]? = some wr) : net.Delivers r wr := by
  have hst := hU.standing
  have hcounted := counted h ht hst.unbroken
  cases r with
  | client =>
    have hplan : ClientSends o client (net.loc .client) (net.host .client).sdone wr :=
      (ht.kept .client).sends _ wr hwr
    have hrecv : wr.verb = .Send → ∀ recv,
        (net.loc .server).rq[(net.host .server).rdone]? = some recv →
        wr.len ≤ recv.len ∧ ∃ y, (net.loc .server).spot recv.mr recv.addr recv.len = some y := by
      intro hv recv hr
      exact receive_fits h ht hst.unbroken hplan hv hr
    cases hplan with
    | data request signaled hk hrequest hwr' =>
      have hfields := requestWr_fields hwr'
      have hv : wr.verb = client.verb := hfields.verb.trans hrequest.slot.verb
      by_cases hverb : client.verb = .Send
      · have hspot := hrequest.slot.spot h.clientAccepted.countPerMr_pos h.clientSize
        rw [← hfields.mr, ← hfields.addr, ← hrequest.slot.length, ← hfields.len] at hspot
        exact hst.effect_message hwr (hv.trans hverb) hspot (hrecv (hv.trans hverb))
      · exact .inl (effect_remote h ht hU hwr hk hrequest hfields hverb)
    | end_ _ hend =>
      exact hst.effect_message hwr hend.verb hend.spot (hrecv hend.verb)
  | server =>
    obtain ⟨-, requests, -, hannounced⟩ := (ht.kept .server).sends _ wr hwr
    refine hst.effect_message hwr hannounced.verb hannounced.spot fun recv hr => ?_
    obtain ⟨-, hexpects⟩ := (ht.kept .client).recvs _ recv hr
    obtain ⟨infos, hinfos, hlen, -⟩ := hannounced.payload
    have hsize := hannounced.size
    refine ⟨?_, _, hexpects.spot⟩
    rw [hlen, length_exchangePayload hinfos hsize, hexpects.len]
    simp only [execSide, h.count]
    rw [← hcounted.arrived]
    exact Nat.le_refl _

/-! ## Every step keeps the invariant -/

theorem sq_upd (l : Local) (op : VOp) (a : op.Ans) :
    (l.upd op a).sq = l.sq ∨ ∃ wr, op = .postSend wr := by
  cases op with
  | postSend wr => exact .inr ⟨wr, rfl⟩
  | malloc bytes => cases a <;> exact .inl rfl
  | mallocRandom size => cases a <;> exact .inl rfl
  | regMr access p len => cases a <;> exact .inl rfl
  | postRecv recv =>
    left
    simp only [Local.upd]
    split <;> rfl
  | _ => exact .inl rfl

theorem rq_upd (l : Local) (op : VOp) (a : op.Ans) :
    (l.upd op a).rq = l.rq ∨ ∃ recv, op = .postRecv recv := by
  cases op with
  | postRecv recv => exact .inr ⟨recv, rfl⟩
  | malloc bytes => cases a <;> exact .inl rfl
  | mallocRandom size => cases a <;> exact .inl rfl
  | regMr access p len => cases a <;> exact .inl rfl
  | postSend wr =>
    left
    simp only [Local.upd]
    split <;> rfl
  | _ => exact .inl rfl

theorem mem_dereged_upd {l : Local} {op : VOp} {a : op.Ans} {j : Nat} (hj : j ∈ (l.upd op a).dereged) :
    j ∈ l.dereged ∨ ∃ mr, op = .deregMr mr ∧ mr.handle = j := by
  cases op with
  | deregMr mr =>
    rcases List.mem_append.1 hj with hj | hj
    · exact .inl hj
    · exact .inr ⟨mr, rfl, (List.mem_singleton.1 hj).symm⟩
  | malloc bytes => cases a <;> exact .inl hj
  | mallocRandom size => cases a <;> exact .inl hj
  | regMr access p len => cases a <;> exact .inl hj
  | postSend wr =>
    simp only [Local.upd] at hj
    split at hj <;> exact .inl hj
  | postRecv recv =>
    simp only [Local.upd] at hj
    split at hj <;> exact .inl hj
  | _ => exact .inl hj

theorem Underway.called (h : Matched client server) (ht : Tracked (execPlan o client server) net)
    (hU : Underway o client server net) {hint : Net.Hint} {r : Role} {op : VOp} {a : op.Ans}
    (hok : execOk o client server r (net.loc r) op) (ha : net.answer hint r op = some a) :
    Underway o client server (net.called r op a) := by
  obtain ⟨hplan, -, htimely⟩ := hok
  have hlater := fun q => net.extends_called r q op a
  have hst : (net.called r op a).Standing := by
    refine hU.standing.called_of ?_ ?_ ?_ a
    · rintro wr rfl
      exact htimely.1
    · rintro recv rfl
      exact htimely.1
    · rintro mr rfl
      obtain ⟨hs, hr⟩ := ht.holds.settled hU.standing.unbroken htimely.1
      exact ⟨hs.le, hr.le⟩
  refine ⟨hU.agreed.called h ht hplan ha (hst.allGood (ht.holds.called ha)), hst, ?_, ?_, ?_⟩
  · intro j hj hlt
    rw [Net.called_done]
    rw [Net.called_loc] at hj
    by_cases hr : .server = r
    · subst hr
      rw [if_pos rfl] at hj
      rcases mem_dereged_upd hj with hj | ⟨mr, rfl, rfl⟩
      · exact hU.granted j hj hlt
      · exact (done_of_serverThrough h ht hU.agreed.good (htimely.2 rfl hlt)).1
    · rw [if_neg hr] at hj
      exact hU.granted j hj hlt
  · intro hverb hpos
    have hmono := (hlater .client).rWcs.length_le
    rw [Net.called_loc] at hpos
    by_cases hr : .client = r
    · subst hr
      rw [if_pos rfl] at hpos
      rcases sq_upd (net.loc .client) op a with hsame | ⟨wr, rfl⟩
      · rw [hsame] at hpos
        exact (hU.clientOrder hverb hpos).trans hmono
      · exact (htimely.2 rfl hverb).trans hmono
    · rw [if_neg hr] at hpos
      exact (hU.clientOrder hverb hpos).trans hmono
  · intro hverb hpos
    have hmono := (hlater .server).sWcs.length_le
    rw [Net.called_loc] at hpos
    by_cases hr : .server = r
    · subst hr
      rw [if_pos rfl] at hpos
      rcases rq_upd (net.loc .server) op a with hsame | ⟨recv, rfl⟩
      · rw [hsame] at hpos
        exact (hU.serverOrder hverb hpos).trans hmono
      · refine (htimely.2 rfl ?_).trans hmono
        show server.verb ≠ .Send
        rwa [h.verb]
    · rw [if_neg hr] at hpos
      exact (hU.serverOrder hverb hpos).trans hmono

theorem Underway.tick (h : Matched client server) (ht : Tracked (execPlan o client server) net)
    (hU : Underway o client server net) {t : Net.Tick} {net' : Net} (hl : NothingFails (.tick t) net')
    (htick : Net.tick t net = some net') : Underway o client server net' := by
  have hloc := fun q => Net.tick_loc htick q
  obtain ⟨hst, hdone⟩ := hU.standing.tick ht.holds (fun _ _ hwr => effect_ready h ht hU hwr) hl htick
  refine ⟨hU.agreed.tick ht htick (hst.allGood (ht.holds.tick htick)), hst, ?_, ?_, ?_⟩
  · intro j hj hlt
    rw [hloc] at hj
    exact (hU.granted j hj hlt).trans (hdone .client)
  · rw [hloc]
    exact hU.clientOrder
  · rw [hloc]
    exact hU.serverOrder

/-! ## The two programs -/

/-- Everything a state that can be reached keeps, and what its programs still need. -/
theorem exec_reachable (h : Matched client server) (hcount : client.count * requestSize < 2 ^ 64)
    (hkeys : ∀ r, (paramsOf client server r).mrCount ≤ 2 ^ 32) {c : Conf rc Int}
    (hc : Reachable NothingFails (start fun r => run o (paramsOf client server r)) c) :
    Tracked (execPlan o client server) c.st ∧ Underway o client server c.st ∧
      ∀ r, ∃ D, Safe (tracking .steady D) (execOk o client server r) (c.prog r) (Net.loc c.st r)
        (Returned (paramsOf client server r) r) := by
  -- the first thing a client reads is the server's count
  let D : Role → Nat → List UInt8 → Prop := fun r k data =>
    r = .client → k = 0 → o.nat data = client.count
  have hsafe : ∀ r, Safe (tracking .steady (D r)) (execOk o client server r)
      (run o (paramsOf client server r)) {} (Returned (paramsOf client server r) r) := by
    intro r
    have hadm : ∀ l op a, (tracking .steady (D r)).adm l op a → (tracking .successful (D r)).adm l op a :=
      fun _ _ _ ha => ⟨ha.contract, ha.reads, ha.calls, ha.completions⟩
    have hok : ∀ l op, (execPlan o client server r).ok .successful l op ∧
        Fit (paramsOf client server r) r l op → execOk o client server r l op :=
      fun _ _ hok => ⟨hok.1.1, hok.2⟩
    cases r with
    | client =>
      have hplanned := planned_client (o := o) (R := .successful) (D := D .client) h.clientAccepted
        h.clientRole trivial id
      have hfit := fit_run (o := o) (D := D .client) h.clientAccepted hcount (hkeys .client) h.clientSize
        fun _ data hdata => hdata rfl rfl
      rw [h.clientRole] at hfit
      exact ((hplanned.along hfit rfl hadm).relax rfl (fun _ _ _ ha => ha) id hok).mono fun _ _ h => h.2
    | server =>
      have hplanned := planned_server (o := o) (R := .successful) (D := D .server) h.serverAccepted
        h.serverRole trivial id
      have hfit := fit_run (o := o) (D := D .server) h.serverAccepted (by rwa [h.count]) (hkeys .server)
        h.serverSize fun hrole => absurd (h.serverRole.symm.trans hrole) (by decide)
      rw [h.serverRole] at hfit
      exact ((hplanned.along hfit rfl hadm).relax rfl (fun _ _ _ ha => ha) id hok).mono fun _ _ h => h.2
  have hreach := Tracked.reachable_of_ok (R := .steady) (I := Underway o client server) (D := D)
    (fun _ _ _ hok => hok.1) (fun _ _ _ hl _ => hl) ?_
    (fun net hint r op a _ _ ht hU ha => Net.answer_good (hU.standing.allGood ht.holds) ha)
    (fun net hint r op a _ ht hU hok ha => hU.called h ht hok ha)
    (fun net t net' hl ht hU htick => hU.tick h ht hl htick) underway_start hsafe hc
  · exact ⟨hreach.1, hreach.2.1, fun r => ⟨D r, hreach.2.2 r⟩⟩
  · rintro net r p len data k ht hU hread ha rfl rfl
    have ⟨_, _, recv, _, _, _, _, hrq, _⟩ := ha
    obtain ⟨hverb, -⟩ := (ht.kept .client).recvs 0 recv hrq
    obtain ⟨requests, -, hdata⟩ := read_announced h ht hverb hread ha
    exact exchangeData_count hdata

/-- When no step is possible. -/
theorem exec_stuck (h : Matched client server) (hcount : client.count * requestSize < 2 ^ 64)
    (hkeys : ∀ r, (paramsOf client server r).mrCount ≤ 2 ^ 32) {c : Conf rc Int}
    (hc : Reachable NothingFails (start fun r => run o (paramsOf client server r)) c)
    (hno : ¬ c.CanStep NothingFails) :
    Stuck (fun r => Returned (paramsOf client server r) r) c := by
  obtain ⟨ht, hU, hsafe⟩ := exec_reachable h hcount hkeys hc
  choose D hsafe using hsafe
  have hspins : ∀ r, ¬ (tracking .steady (D r)).spins := fun _ hspin => hspin trivial
  exact stuck_of_not_canStep ht.holds hU.standing.unbroken hspins
    (fun _ _ _ hok => hok.2.1) (fun _ _ _ hok => hok.2.2) (fun _ _ hok => hok.2.2)
    (fun _ _ _ hok => hok.2.2.elim) hsafe (fun _ _ hwr => effect_ready h ht hU hwr) hno

/-- There is no exchange, or it is over on a host that has gone on. -/
theorem exchange_over (h : Matched client server) (ht : Tracked (execPlan o client server) net)
    (hU : Underway o client server net) :
    ((net.loc .client).rq.length = 0 ∧ (net.loc .server).sq.length = 0) ∨
      (0 < (net.loc .client).sq.length → 2 ≤ (net.host .client).rdone) ∧
      (0 < (net.loc .server).rq.length → 2 ≤ (net.host .server).sdone) := by
  by_cases hverb : client.verb = .Send
  · exact .inl ((counted h ht hU.standing.unbroken).noExchange hverb)
  · exact .inr ⟨fun hpos => (hU.clientOrder hverb hpos).trans (ht.holds.rWcs_le .client),
      fun hpos => (hU.serverOrder hverb hpos).trans (ht.holds.sWcs_le hU.standing.unbroken .server)⟩

/-- **The two processes never wait for each other.** -/
theorem not_stuck (h : Matched client server) {c : Conf rc Int}
    (ht : Tracked (execPlan o client server) c.st) (hU : Underway o client server c.st)
    (hs : Stuck (fun r => Returned (paramsOf client server r) r) c) (r : Role) :
    ∃ rv, c.prog r = .ret rv := by
  have hb := hU.standing.unbroken
  have hcounts := hs.counts (fun _ _ _ hdone => hdone.finished.drained) ht.holds hb
  obtain ⟨hcsent, hsposted, hcposted, hssent, -, harrived, hmarked⟩ := counted h ht hb
  have hover := exchange_over h ht hU
  have hclient := hs.heads .client
  have hserver := hs.heads .server
  simp only [Role.peer] at hclient hserver
  rcases hcounts .client with ⟨rv, hret, hdone, hcs, hcr⟩ | hcs | hcr
  · have hall : (Net.loc c.st .client).sq.length = total client + 1 := hdone.finished.client rfl
    rcases hcounts .server with ⟨rv', hret', -⟩ | hss | hsr
    · cases r with
      | client => exact ⟨rv, hret⟩
      | server => exact ⟨rv', hret'⟩
    · -- the client has received both messages of the exchange
      omega
    · -- the end message has been sent
      omega
  · rcases hcounts .server with ⟨rv', hret', hdone', hss, hsr⟩ | hss | hsr
    · -- the end message has been received
      have hall : (Net.loc c.st .server).rq.length = dataMessages server + 1 :=
        hdone'.finished.server rfl
      omega
    · -- the client sends nothing before the exchange is over
      omega
    · -- the message has its receive
      omega
  · rcases hcounts .server with ⟨rv', hret', hdone', hss, hsr⟩ | hss | hsr
    · have hall : (Net.loc c.st .server).rq.length = dataMessages server + 1 :=
        hdone'.finished.server rfl
      omega
    · omega
    · -- the server receives nothing before the exchange is over
      omega

/-- Both hosts have hashed once, and what the host the data comes from had filled its requests
with. -/
def HashedOnce (client server : DccsParameters) (net : Net) : Prop :=
  ∃ chunks : List (List UInt8), chunks.length = client.count ∧
    (∀ r, (net.loc r).digests = [chunks]) ∧
    ∀ (i : Nat) (chunk : List UInt8), chunks[i]? = some chunk →
      FilledWith (paramsOf client server (source client)) (net.loc (source client)) i chunk

/-- While a process has not returned some step is possible, no run goes on for ever, no completion
reports an error; and when both have returned, they have done what they were told to. -/
structure Completing (client server : DccsParameters) (c : Conf rc Int) : Prop where
  progress : (∃ r, ∀ rv, c.prog r ≠ .ret rv) → c.CanStep NothingFails
  terminates : Acc (Conf.Step NothingFails) c
  good : Net.AllGood c.st
  returned : ∀ rv : Role → Int, (∀ r, c.prog r = .ret (rv r)) →
    (∀ r, rv r = 1) ∧ RequestsAgree client server c.st ∧ ControlExec.NothingInFlight c.st ∧
      HashedOnce client server c.st

/-- What the two digests are of. -/
theorem hashedOnce_of_agreed (h : Matched client server) (ht : Tracked (execPlan o client server) net)
    (hI : Agreed o client server net) (honce : ∀ r, ∃ chunks, (net.loc r).digests = [chunks]) :
    HashedOnce client server net := by
  obtain ⟨chunks, hclient⟩ := honce .client
  obtain ⟨chunks', hserver⟩ := honce .server
  have hmem : chunks ∈ (net.loc .client).digests := by rw [hclient]; exact List.mem_singleton_self _
  have hmem' : chunks' ∈ (net.loc .server).digests := by rw [hserver]; exact List.mem_singleton_self _
  obtain rfl := (dataAgrees_of_agreed h ht hI).digests chunks hmem chunks' hmem'
  have hh : Hashes server 0 (net.loc .server) chunks := (ht.kept .server).digests chunks hmem'
  refine ⟨chunks, by rw [hh.length, h.count], fun r => ?_, fun i chunk hchunk => ?_⟩
  · cases r with
    | client => exact hclient
    | server => exact hserver
  · exact filled_of_hashes hI (r := .server) hh hchunk

end completion

/-- What the two processes have returned. -/
def exitsOf (c : Conf rc Int) : Option (Int × Int) :=
  (c.prog .client).value.bind fun a => (c.prog .server).value.map fun b => (a, b)

end RdmaExec

end RdmaOpera
