import RdmaOpera.ControlDelivery
import RdmaOpera.ExecCompletion

/-!
# `control_exec` comes to its end

A client and a server that are meant for each other, every interleaving of their calls and of the
network, while nothing fails. The two processes never wait for each other, and no run goes on for
ever. When both have returned, both return 1, each request of the client holds what the server had
left in the one of the same number, with the packet in front, and the digest the server prints of
what it has sent is the one the client prints of what it has received.
-/

namespace RdmaOpera

open Lib Prog

namespace ControlExec

open RdmaExec (roleOf paramsOf loads_called called_loads mem_dereged_upd)

section completion
variable {o : ByteOrder} {client server : DccsParameters} {net : Net}

/-! ## The joint invariant -/

/-- While nothing fails: the connection stands, the server knows the client's requests, whose regions
are registered until all writes are through, both hosts hash first what the server has sent, and
nothing is read before something has been sent. -/
structure Underway (o : ByteOrder) (client server : DccsParameters) (net : Net) : Prop where
  standing : net.Standing
  informed : Informed o client net
  granted : ∀ j ∈ (net.loc .client).dereged, j < client.mrCount →
    total server + 2 ≤ (net.done .server).length
  reads : ∀ r, ∀ i < client.count, ∀ data, (net.loc r).loads[2 + i]? = some data →
    FilledOut server (net.loc .server) i data
  started : net.transfers = [] → ∀ r, (net.loc r).loads = []

theorem underway_start : Underway o client server {} where
  standing := ⟨rfl, by simp, by simp⟩
  informed := by simp [Informed]
  granted := by simp
  reads := by simp
  started := by simp

/-- A client that has received the end message. -/
theorem done_of_through (ht : Tracked (plans o client server) net) (hb : net.broken = false)
    (hthrough : 3 ≤ (net.loc .client).rWcs.length) :
    total server + 2 ≤ (net.done .server).length := by
  have hgot := (counted ht hb).toClient
  have hle := hthrough.trans (ht.holds.rWcs_le .client)
  rw [hgot, (ht.holds.standing hb .server).1] at hle
  split at hle <;> omega

/-! ## Requests -/

/-- A write is carried out: the client has not given its region back. -/
theorem effect_write (h : Matched client server) (ht : Tracked (plans o client server) net)
    (hU : Underway o client server net) {wr : SendWr} {request : DccsRequest} {i : Nat}
    (hwr : (net.loc .server).sq[(net.host .server).sdone]? = some wr)
    (hlt : (net.host .server).sdone < total server + 2) (hi : i < client.count)
    (hrequest : OutRequest o server (net.loc .server) i request) (he : wr = writeWr request) :
    net.Delivers .server wr := by
  have hlen : wr.len = client.length := by
    rw [he]
    exact hrequest.slot.length.trans h.length
  have hspot := hrequest.slot.spot h.runnableServer.accepted.countPerMr_pos h.runnableServer.buffers
  have hown : (net.loc .server).spot wr.mr wr.addr wr.len = some (outSlotOf server i) := by
    rw [hlen, ← h.length, he]
    exact hspot
  have hlive := hU.standing.liveSpot_send (Nat.le_refl _) hwr hown
  obtain ⟨peer, mr, hslot, hmr, haddr, hrkey⟩ := hU.informed.remote hi hrequest
  have hgroup : i / countPerMr client ∉ (net.loc .client).dereged := by
    intro hmem
    have := hU.granted _ hmem (h.runnableClient.accepted.group_lt hi)
    rw [(ht.holds.standing hU.standing.unbroken .server).1] at hlt
    omega
  have hwrite : accessOf client.verb = .write := by rw [h.verb]; rfl
  have hmsgs : accessOf client.verb ≠ .msgs := by
    rw [hwrite]
    decide
  have hremote := hslot.remote h.runnableClient.accepted.countPerMr_pos h.runnableClient.buffers
    h.runnableClient.accepted.checked.2.1 (ht.kept .client).keys hmsgs hmr hgroup
  have hraddr : wr.raddr = UInt64.ofNat peer.buf.addr := by rw [he]; exact haddr
  have hkey : wr.rkey = mr.rkey := by rw [he]; exact hrkey
  rw [hwrite, ← hkey, ← hraddr, ← hlen] at hremote
  have hremote : (net.loc Role.server.peer).remote .write wr.rkey wr.raddr.toNat wr.len = _ := hremote
  have hv : wr.verb = .Write := by rw [he]; rfl
  left
  simp only [Net.effect, hv, hlive, hremote]
  exact ⟨_, rfl⟩

/-- **No request is rejected.** -/
theorem effect_ready (h : Matched client server) (ht : Tracked (plans o client server) net)
    (hU : Underway o client server net) {r : Role} {wr : SendWr}
    (hwr : (net.loc r).sq[(net.host r).sdone]? = some wr) : net.Delivers r wr := by
  have hst := hU.standing
  have hcounted := counted ht hst.unbroken
  have hplan : Sends o (paramsOf client server r) r (net.loc r) (net.host r).sdone wr :=
    (ht.kept r).sends _ wr hwr
  have hrecvs : ∀ recv, (net.loc r.peer).rq[(net.host r.peer).rdone]? = some recv →
      Receives (paramsOf client server r.peer) r.peer (net.loc r.peer) (net.host r.peer).rdone recv :=
    fun recv hrecv => (ht.kept r.peer).recvs _ recv hrecv
  cases hplan with
  | announce requests _ ha =>
    have hlt := ha.lt
    -- both ends have come to the same message
    have hsame : (net.host r.peer).rdone = (net.host r).sdone := by
      cases r with
      | client => exact hcounted.toServer
      | server =>
        have hgot : (net.host Role.server.peer).rdone = _ := hcounted.toClient
        rw [hgot, if_neg (by omega)]
        omega
    refine hst.effect_message hwr ha.verb ha.spot fun recv hrecv => ?_
    cases hrecvs recv hrecv with
    | address hexpects =>
      obtain ⟨infos, hinfos, hlen, -⟩ := ha.payload
      refine ⟨?_, _, hexpects.spot⟩
      rw [hlen, length_exchangePayload hinfos ha.size, hexpects.len, hsame, h.side_count, h.side_count]
    | end_ _ h2 _ _ => omega
  | write request hr hle hlt hrequest he =>
    subst hr
    have hmod : ((net.host .server).sdone - 2) % server.count < client.count := by
      rw [← h.count]
      exact Nat.mod_lt _ h.runnableServer.accepted.checked.1
    exact effect_write h ht hU hwr hlt hmod hrequest he
  | end_ hr hk hend =>
    subst hr
    have hgot : (net.host Role.server.peer).rdone = 2 := by
      have hgot : (net.host Role.server.peer).rdone = _ := hcounted.toClient
      have hk : (net.host .server).sdone = total server + 2 := hk
      rw [hgot, if_neg (by omega)]
      omega
    refine hst.effect_message hwr hend.verb hend.spot fun recv hrecv => ?_
    cases hrecvs recv hrecv with
    | address hexpects =>
      have := hexpects.lt
      omega
    | end_ _ _ hlen hspot => exact ⟨by rw [hend.len, hlen], _, hspot⟩

/-! ## What is read -/

/-- **What a process reads next.** -/
inductive ReadsNext (o : ByteOrder) (client server : DccsParameters) (net : Net) (r : Role)
    (data : List UInt8) : Prop where
  | announced (requests : List DccsRequest) (hlt : (net.loc r).loads.length < 2)
    (hslots : Slots (paramsOf client server r.peer) (net.loc r.peer) requests)
    (hdata : ExchangeData o requests client.count (net.loc r).loads.length data)
  | hashed (hle : 2 ≤ (net.loc r).loads.length)
    (hdata : ∀ i < client.count, (net.loc r).loads.length = 2 + i →
      FilledOut server (net.loc .server) i data)

theorem reads_next (h : Matched client server) (ht : Tracked (plans o client server) net)
    (hU : Underway o client server net) {r : Role} {p : Ptr} {len : Nat} {data : List UInt8}
    (hplan : (plans o client server r).load (net.loc r) p len)
    (hread : net.read r p len = some data) : ReadsNext o client server net r data := by
  rcases hplan with ⟨k, hlt, rfl, ha⟩ | hdigest
  · obtain ⟨requests, hslots, hdata⟩ := read_announced h ht hlt hread ha
    exact .announced requests hlt hslots hdata
  · refine .hashed hdigest.loads fun i hi hat => ?_
    obtain ⟨rfl, request, hrequest, rfl⟩ := hdigest.first i (by rwa [h.count_eq]) hat
    cases r with
    | server => exact filled_of_read h ht hU.informed hi hrequest hread
    | client =>
      have hall := done_of_through ht hU.standing.unbroken (hdigest.through rfl)
      obtain ⟨data', hfilled, p, hp, hread'⟩ := holds_of_done h ht hU.informed hall hi
      have hslot : Slot client (net.loc .client) i request := hrequest
      rw [hslot.bufferOf] at hp
      cases hp
      have hread : net.read .client request.buf client.length = some data := hread
      rw [hread] at hread'
      cases hread'
      exact hfilled

/-- Nothing is read before something has been sent. -/
theorem transfers_of_load (ht : Tracked (plans o client server) net)
    (hstarted : net.transfers = [] → ∀ r, (net.loc r).loads = []) {r : Role} {p : Ptr} {len : Nat}
    (hplan : (plans o client server r).load (net.loc r) p len) : net.transfers ≠ [] := by
  intro hnone
  rcases hplan with ⟨k, -, -, _, _, _, wc, -, -, -, -, -, -, hwc, hs⟩ | hdigest
  · obtain ⟨t, hget⟩ := ht.holds.arrived hwc hs
    have hmem := (Net.mem_msgs.1 (List.mem_of_getElem? hget)).1
    rw [hnone] at hmem
    cases hmem
  · have htwo := hdigest.loads
    rw [hstarted hnone r] at htwo
    exact absurd htwo (by decide)

/-- Nothing is sent to a process that has not posted anything: the first request of the peer is a
message. -/
theorem transfers_eq_nil (ht : Tracked (plans o client server) net) {r : Role}
    (hsq : (net.loc r).sq = []) (hrq : (net.loc r).rq = []) : net.transfers = [] := by
  refine List.eq_nil_iff_forall_not_mem.2 fun t hmem => ?_
  have hdone := Net.mem_done.2 ⟨hmem, rfl⟩
  rcases Role.eq_or_eq_peer r t.src with hsrc | hsrc
  · have hwr := (ht.holds.done_sq t.src).subset (List.mem_map.2 ⟨t, hdone, rfl⟩)
    rw [hsrc, hsq] at hwr
    cases hwr
  · rw [hsrc] at hdone
    have hfirst := List.getElem?_eq_getElem (List.length_pos_of_mem hdone)
    have hplan : Sends o (paramsOf client server r.peer) r.peer (net.loc r.peer) 0 _ :=
      (ht.kept r.peer).sends 0 _ (ht.holds.done_sent hfirst)
    have hmsg := Net.mem_done.1 (List.mem_of_getElem? hfirst)
    have hverb := hplan.message_iff.2 (.inl Nat.two_pos)
    obtain ⟨k, hk⟩ := List.getElem?_of_mem (Net.mem_msgs.2 ⟨hmsg.1, hmsg.2, hverb⟩)
    obtain ⟨recv, -, hrecv⟩ := ht.holds.msgs_recv hk
    rw [Role.peer_peer, hrq] at hrecv
    cases hrecv

/-! ## Every step keeps the invariant -/

theorem Informed.called (hk : Informed o client net) {r : Role} {p : Ptr} {len : Nat}
    {data : List UInt8} (hnext : ReadsNext o client server net r data) :
    Informed o client (net.called r (.load p len) data) := by
  have hlater := net.extends_called r .client (.load p len) data
  intro infos hinfos
  rcases loads_called hinfos with hold | ⟨rfl, hlen, rfl⟩
  · obtain ⟨requests, hslots, hlocal⟩ := hk infos hold
    exact ⟨requests, hslots.extends hlater, hlocal⟩
  · cases hnext with
    | announced requests _ hslots hdata =>
      rw [← hlen] at hdata
      obtain ⟨-, infos', hlocal, hpayload⟩ := hdata
      have hpayload : infos = infos' := hpayload.trans (if_neg Nat.one_ne_zero)
      exact ⟨requests, hslots.extends hlater, hpayload ▸ hlocal⟩
    | hashed hle _ => omega

/-- What a call adds to what has been read. -/
theorem reads_called (h : Matched client server) (ht : Tracked (plans o client server) net)
    (hU : Underway o client server net) {hint : Net.Hint} {r : Role} {op : VOp} {a : op.Ans}
    (hok : (plans o client server r).allows (net.loc r) op) (ha : net.answer hint r op = some a) :
    Informed o client (net.called r op a) ∧ ∀ q, ∀ i < client.count, ∀ data,
      ((net.called r op a).loc q).loads[2 + i]? = some data →
        FilledOut server ((net.called r op a).loc .server) i data := by
  have hlater := fun q => net.extends_called r q op a
  by_cases hop : ∃ p len, op = .load p len
  · obtain ⟨p, len, rfl⟩ := hop
    have hnext := reads_next h ht hU hok ha
    refine ⟨hU.informed.called hnext, fun q i hi data hdata => ?_⟩
    refine FilledOut.extends ?_ (hlater .server)
      ((net.later_called r (by rintro _ _ ⟨⟩) a).stores .server)
    rcases loads_called hdata with hold | ⟨rfl, hlen, rfl⟩
    · exact hU.reads q i hi data hold
    · cases hnext with
      | announced _ hlt _ _ => omega
      | hashed _ hdata => exact hdata i hi hlen.symm
  · -- nothing is read
    have hloads := fun q => called_loads net r q (fun p len he => hop ⟨p, len, he⟩) a
    refine ⟨fun infos hinfos => ?_, fun q i hi data hdata => ?_⟩
    · rw [hloads] at hinfos
      obtain ⟨requests, hslots, hlocal⟩ := hU.informed infos hinfos
      exact ⟨requests, hslots.extends (hlater .client), hlocal⟩
    · rw [hloads] at hdata
      by_cases hstore : ∃ p bytes, op = .store p bytes
      · -- before anything has been read
        obtain ⟨p, bytes, rfl⟩ := hstore
        rw [hU.started (Net.answer_store ha).1 q] at hdata
        cases hdata
      · have hstores := (net.later_called r (fun p bytes he => hstore ⟨p, bytes, he⟩) a).stores .server
        exact (hU.reads q i hi data hdata).extends (hlater .server) hstores

theorem Underway.called (h : Matched client server) (ht : Tracked (plans o client server) net)
    (hU : Underway o client server net) {hint : Net.Hint} {r : Role} {op : VOp} {a : op.Ans}
    (hok : Fit o (paramsOf client server r) r (net.loc r) op) (ha : net.answer hint r op = some a) :
    Underway o client server (net.called r op a) := by
  obtain ⟨hplan, -, hdue, hgranted⟩ := hok
  have hb := hU.standing.unbroken
  have hst : (net.called r op a).Standing := by
    refine hU.standing.called_of ?_ ?_ ?_ a
    · rintro wr rfl
      exact hdue
    · rintro recv rfl
      exact hdue
    · rintro mr rfl
      obtain ⟨hs, hr⟩ := ht.holds.settled hb hdue
      exact ⟨hs.le, hr.le⟩
  obtain ⟨hinformed, hreads⟩ := reads_called h ht hU hplan ha
  refine ⟨hst, hinformed, fun j hj hlt => ?_, hreads, fun hnone q => ?_⟩
  · rw [Net.called_done]
    rw [Net.called_loc] at hj
    by_cases hr : .client = r
    · subst hr
      rw [if_pos rfl] at hj
      rcases mem_dereged_upd hj with hj | ⟨mr, rfl, rfl⟩
      · exact hU.granted j hj hlt
      · exact done_of_through ht hb (hgranted mr rfl rfl hlt)
    · rw [if_neg hr] at hj
      exact hU.granted j hj hlt
  · have hnone : net.transfers = [] := hnone
    by_cases hop : ∃ p len, op = .load p len
    · obtain ⟨p, len, rfl⟩ := hop
      exact (transfers_of_load ht hU.started hplan hnone).elim
    · rw [called_loads net r q (fun p len he => hop ⟨p, len, he⟩) a]
      exact hU.started hnone q

theorem Underway.tick (h : Matched client server) (ht : Tracked (plans o client server) net)
    (hU : Underway o client server net) {t : Net.Tick} {net' : Net} (hl : NothingFails (.tick t) net')
    (htick : Net.tick t net = some net') : Underway o client server net' := by
  have hloc := fun q => Net.tick_loc htick q
  obtain ⟨hst, hdone⟩ := hU.standing.tick ht.holds (fun _ _ hwr => effect_ready h ht hU hwr) hl htick
  refine ⟨hst, ?_, fun j hj hlt => ?_, fun r => ?_, fun hnone r => ?_⟩
  · rw [Informed, hloc, hloc]
    exact hU.informed
  · rw [hloc] at hj
    exact (hU.granted j hj hlt).trans (hdone .server)
  · rw [hloc, hloc]
    exact hU.reads r
  · rw [hloc]
    exact hU.started (List.prefix_nil.1 (hnone ▸ (Net.later_tick htick).transfers)) r

/-! ## The two programs -/

/-- The first thing each process reads is the count. -/
def CountRead (o : ByteOrder) (client : DccsParameters) (k : Nat) (data : List UInt8) : Prop :=
  k = 0 → o.nat data = client.count

/-- What a monitor that counts completions relies on. -/
theorem counting_adm (h : Matched client server) (ht : Tracked (plans o client server) net)
    (hU : Underway o client server net) {hint : Net.Hint} {r : Role} {op : VOp} {a : op.Ans}
    (hl : NothingFails (.call r hint) (net.called r op a)) (ha : net.answer hint r op = some a) :
    (counting (CountRead o client)).adm (net.loc r) op a := by
  have hgood := Net.answer_good (hU.standing.allGood ht.holds) ha
  refine ⟨⟨Net.answer_contract ha, ?_, fun _ => Net.answer_unfailing ha hl, fun _ => hgood⟩, ?_⟩
  · cases op with
    | load p len =>
      rintro k hk rfl
      obtain ⟨requests, -, hdata⟩ := read_announced h ht Nat.two_pos ha hk
      exact exchangeData_count hdata
    | _ => trivial
  · have hle := (ht.holds.called ha).sWcs_le_signaled hU.standing.unbroken r
    rwa [Net.called_loc, if_pos rfl] at hle

/-- Everything a state that can be reached keeps, and what its programs still need. -/
theorem control_reachable (h : Matched client server) {c : Conf rc Int}
    (hc : Reachable NothingFails (start fun r => run o (paramsOf client server r)) c) :
    Tracked (plans o client server) c.st ∧ Underway o client server c.st ∧
      ∀ r, Safe (counting (CountRead o client)) (Fit o (paramsOf client server r) r) (c.prog r)
        (Net.loc c.st r) (Returned (paramsOf client server r) r) := by
  have hupd : ∀ _ : Role, (counting (CountRead o client)).upd = Local.upd := fun _ => rfl
  refine Tracked.reachable_of_adm hupd (fun _ _ _ hok => hok.1)
    (fun net hint r op a hl ht hU _ ha => counting_adm h ht hU hl ha)
    (fun net hint r op a _ ht hU hok ha => hU.called h ht hok ha)
    (fun net t net' hl ht hU htick => hU.tick h ht hl htick) underway_start (fun r => ?_) hc
  have hread : ∀ data, CountRead o client 0 data → o.nat data = (paramsOf client server r).count :=
    fun data hdata => (hdata rfl).trans (h.count_eq r).symm
  have hfit := fit_run (h.runnable r) hread
  rwa [h.role r] at hfit

/-- **The two processes never wait for each other.** -/
theorem not_stuck {c : Conf rc Int} (ht : Tracked (plans o client server) c.st)
    (hU : Underway o client server c.st) (hs : Stuck (fun r => Returned (paramsOf client server r) r) c)
    (r : Role) : ∃ rv, c.prog r = .ret rv := by
  have hb := hU.standing.unbroken
  have hcounts := hs.counts (fun _ _ _ hdone => by
    obtain ⟨-, _, _, _, _, hended⟩ := hdone
    exact hended.drained) ht.holds hb
  obtain ⟨hsent, hposted, htoServer, htoClient, hclientOrder, hserverOrder⟩ := counted ht hb
  have hsc := hsent .client
  have hss := hsent .server
  have hpc := hposted .client
  have hps := hposted .server
  have hclient := hs.heads .client
  have hserver := hs.heads .server
  have hsWcs := ht.holds.sWcs_le hb .client
  have hrWcs := ht.holds.rWcs_le .server
  simp only [allSends, allRecvs, paramsOf, Role.peer] at hsc hss hpc hps hclient hserver
  rcases hcounts .client with ⟨rv, hret, ⟨-, _, _, _, _, hended⟩, hcs, hcr⟩ | hcs | hcr
  · have hall : (Net.loc c.st .client).rq.length = 3 := hended.recvs
    rcases hcounts .server with ⟨rv', hret', -⟩ | hss' | hsr'
    · cases r with
      | client => exact ⟨rv, hret⟩
      | server => exact ⟨rv', hret'⟩
    · -- the end message has been received
      split at htoClient <;> omega
    · -- so have been both messages of the client
      have hboth : (Net.loc c.st .client).sq.length = 2 := hended.sends
      omega
  · rcases hcounts .server with ⟨rv', hret', ⟨-, _, _, _, _, hended⟩, hss', hsr'⟩ | hss' | hsr'
    · have hall : (Net.loc c.st .server).rq.length = 2 := hended.recvs
      omega
    · -- the server sends nothing before it has received both messages
      omega
    · -- the message has its receive
      omega
  · rcases hcounts .server with ⟨rv', hret', ⟨-, _, _, _, _, hended⟩, hss', hsr'⟩ | hss' | hsr'
    · have hall : (Net.loc c.st .server).sq.length = total server + 3 := hended.sends
      split at htoClient <;> omega
    · omega
    · -- the client receives nothing before both its messages are through
      omega

/-! ## What has been done in the end -/

/-- Each request of the client holds what the server had left in the one of the same number, with the
packet in front. -/
def Delivered (client server : DccsParameters) (net : Net) : Prop :=
  ∀ i < client.count, ∃ data, FilledOut server (net.loc .server) i data ∧
    BeginsWithPacket server data ∧ RdmaExec.Holds client net .client i data

/-- Both hosts have printed two digests, and the first is the same on both: what the server has sent,
and what the client has received. -/
def DigestsAgree (client server : DccsParameters) (net : Net) : Prop :=
  ∃ chunks : List (List UInt8), chunks.length = client.count ∧
    (∀ r, ∃ second, (net.loc r).digests = [chunks, second]) ∧
    ∀ (i : Nat) (chunk : List UInt8), chunks[i]? = some chunk →
      FilledOut server (net.loc .server) i chunk ∧ BeginsWithPacket server chunk

/-- While a process has not returned some step is possible, no run goes on for ever, no completion
reports an error; and when both have returned, the data has been delivered. -/
structure Completing (client server : DccsParameters) (c : Conf rc Int) : Prop where
  progress : (∃ r, ∀ rv, c.prog r ≠ .ret rv) → c.CanStep NothingFails
  terminates : Acc (Conf.Step NothingFails) c
  good : Net.AllGood c.st
  returned : ∀ rv : Role → Int, (∀ r, c.prog r = .ret (rv r)) →
    (∀ r, rv r = 1) ∧ NothingInFlight c.st ∧ Delivered client server c.st ∧
      DigestsAgree client server c.st

/-- What is hashed first is what has been read behind the exchange. -/
theorem Ended.chunk {params : DccsParameters} {r : Role} {ins outs : List DccsRequest} {l : Local}
    {first second : List (List UInt8)} (h : Ended params r ins outs [first, second] l) {i : Nat}
    {chunk : List UInt8} (hi : first[i]? = some chunk) : l.loads[2 + i]? = some chunk := by
  obtain ⟨fetched, htwo, hloads⟩ := h.loads
  have hlt := (List.getElem?_eq_some_iff.1 hi).1
  rw [hloads, List.getElem?_append_right (by omega), htwo, Nat.add_sub_cancel_left, List.flatten_cons,
    List.getElem?_append_left hlt]
  exact hi

/-- The first digest is of what the server's requests were filled with. -/
theorem first_digest (h : Matched client server) (hU : Underway o client server net) {r : Role}
    {ins outs : List DccsRequest} {first second : List (List UInt8)}
    (hended : Ended (paramsOf client server r) r ins outs [first, second] (net.loc r)) :
    first.length = client.count ∧ ∀ (i : Nat) (chunk : List UInt8), first[i]? = some chunk →
      FilledOut server (net.loc .server) i chunk := by
  have hsize : first.length = client.count :=
    (hended.sizes first List.mem_cons_self).trans (h.count_eq r)
  refine ⟨hsize, fun i chunk hi => ?_⟩
  have hlt := (List.getElem?_eq_some_iff.1 hi).1
  rw [hsize] at hlt
  exact hU.reads r i hlt chunk (hended.chunk hi)

theorem digestsAgree_of_ended (h : Matched client server) (ht : Tracked (plans o client server) net)
    (hU : Underway o client server net)
    (hended : ∀ r, ∃ ins outs first second,
      Ended (paramsOf client server r) r ins outs [first, second] (net.loc r)) :
    DigestsAgree client server net := by
  obtain ⟨_, _, chunks, second, hc⟩ := hended .client
  obtain ⟨_, _, chunks', second', hs⟩ := hended .server
  obtain ⟨hsize, hfilled⟩ := first_digest h hU hc
  obtain ⟨hsize', hfilled'⟩ := first_digest h hU hs
  have hsame : chunks = chunks' := by
    refine List.ext_getElem (hsize.trans hsize'.symm) fun i hi hi' => ?_
    exact (hfilled i _ (List.getElem?_eq_getElem hi)).unique
      (hfilled' i _ (List.getElem?_eq_getElem hi'))
  subst hsame
  refine ⟨chunks, hsize, fun r => ?_, fun i chunk hi => ?_⟩
  · cases r with
    | client => exact ⟨second, hc.digests⟩
    | server => exact ⟨second', hs.digests⟩
  · have hlt := (List.getElem?_eq_some_iff.1 hi).1
    have hdata := hfilled i chunk hi
    exact ⟨hdata, hdata.beginsWithPacket h ht hs.packets (by rwa [← hsize])⟩

end completion

/-- A client for two requests of seven bytes, each in a region of its own. -/
def twoWrites : DccsParameters :=
  { oneSend with verb := .Write, count := 2, length := 7, repeat_ := 100, mrCount := 2, index := 3 }

/-- The server for it. -/
def twoWritten : DccsParameters := { twoWrites with server := none, index := 5 }

theorem runnable_twoWrites : Runnable twoWrites :=
  ⟨⟨twoWrites, ⟨by decide, by decide, by decide, by decide, by decide, by decide⟩, rfl⟩,
    by decide, by decide, by decide, by decide, by decide, by decide, by decide⟩

theorem runnable_twoWritten : Runnable twoWritten :=
  ⟨⟨twoWritten, ⟨by decide, by decide, by decide, by decide, by decide, by decide⟩, rfl⟩,
    by decide, by decide, by decide, by decide, by decide, by decide, by decide⟩

theorem matched_twoWrites : Matched twoWrites twoWritten :=
  ⟨runnable_twoWrites, runnable_twoWritten, rfl, rfl, rfl, rfl, rfl⟩

/-- The four blocks of a process and their regions; block `n` comes with the bytes `byte + n`. -/
def requestBlocks (r : Role) (byte : UInt8) : List (Label rc) :=
  (List.range 4).flatMap fun n =>
    [.call r { addr := 4096 * (n + 1), bytes := List.replicate 7 (byte + UInt8.ofNat n) },
      .call r { rkey := UInt32.ofNat n }]

/-- A round of the server: both requests posted, carried out and polled one by one. -/
def roundWritten : List (Label rc) :=
  calls .server 5 ++ carried .server ++ calls .server 1 ++ carried .server ++ calls .server 2

/-- All rounds of the two processes, and the end message. -/
def bothWritten : List (Label rc) :=
  calls .client 5 ++ calls .server 6 ++ requestBlocks .client 0 ++ requestBlocks .server 10 ++
    calls .client 9 ++ calls .server 9 ++ carried .client ++ calls .client 2 ++ calls .server 3 ++
    carried .client ++ calls .client 10 ++ calls .server 11 ++ carried .server ++ calls .client 3 ++
    calls .server 2 ++ carried .server ++ calls .client 110 ++ calls .server 8 ++
    (List.replicate 100 roundWritten).flatten ++ calls .server 3 ++ carried .server ++
    calls .client 19 ++ calls .server 22

/-- What the two processes have returned, and the first digest of the client. -/
def deliveryOf (c : Conf rc Int) : Option ((Int × Int) × Option (List (List UInt8))) :=
  (RdmaExec.exitsOf c).map fun exits => (exits, (Net.loc c.st .client).digests[0]?)

/-- What the client prints first: the packet of the server, and the byte that block came with. -/
def printedFirst : List (List UInt8) :=
  [[0xd1, 0xce, 0xfa, 0x11, 0, 5, 12], [0xd1, 0xce, 0xfa, 0x11, 0, 5, 13]]

end ControlExec

end RdmaOpera
