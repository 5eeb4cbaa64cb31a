import RdmaOpera.ControlReturn
import RdmaOpera.DataAgreement

/-!
# What travels between the two processes of `control_exec`

Every request is a message of the exchange, a write of a round or the end message (`Sends`), so the
messages of a server are counted by its requests (`counted`). A host reads the peer's announcement,
and the `k`-th write of the server moves one of its `requests_out` to the client's request of the
same number. Nothing else is ever transferred to either.
-/

namespace RdmaOpera

open Lib Prog
open RdmaExec (roleOf paramsOf)

/-! ## Counting along a list -/

/-- Where all of the first elements satisfy `p`, a filter keeps their places. -/
theorem getElem?_filter_first {α : Type} {p : α → Bool} {n k : Nat} (hk : k < n) :
    ∀ {xs : List α}, (∀ j < n, ∀ x, xs[j]? = some x → p x) → (xs.filter p)[k]? = xs[k]? := by
  intro xs
  induction xs generalizing n k with
  | nil => intro _; rfl
  | cons x xs ih =>
    intro h
    rw [List.filter_cons_of_pos (h 0 (by omega) x rfl)]
    cases k with
    | zero => rfl
    | succ k =>
      have hrest : ∀ j < n - 1, ∀ y, xs[j]? = some y → p y := fun j hj y hy => h (j + 1) (by omega) y hy
      simpa using ih (show k < n - 1 by omega) hrest

/-- How many elements satisfy `p` if those are the first two and the one at `n`. -/
theorem length_filter_ends {α : Type} {p : α → Bool} {n : Nat} (hn : 2 ≤ n) (xs : List α)
    (h : ∀ k x, xs[k]? = some x → (p x = true ↔ k < 2 ∨ k = n)) :
    (xs.filter p).length = min xs.length 2 + if n < xs.length then 1 else 0 := by
  induction xs using List.reverseRecOn with
  | nil => rfl
  | append_singleton xs x ih =>
    have hlast := h xs.length x (by simp)
    have hinit : ∀ k y, xs[k]? = some y → (p y = true ↔ k < 2 ∨ k = n) :=
      fun k y hy => h k y (getElem?_mono (List.prefix_append _ _) hy)
    rw [List.filter_append, List.length_append, ih hinit, List.length_append]
    by_cases hx : p x = true
    · have hat := hlast.1 hx
      simp only [List.filter_cons_of_pos hx, List.filter_nil, List.length_singleton]
      split <;> split <;> omega
    · have hat := mt hlast.2 hx
      simp only [List.filter_cons_of_neg hx, List.filter_nil, List.length_nil, List.length_singleton]
      split <;> split <;> omega

namespace ControlExec

/-- A client and a server that are meant for each other. Only the regions of the client have to be
open to writes, and it does not matter how many rounds the client waits. -/
structure Matched (client server : DccsParameters) : Prop where
  runnableClient : Runnable client
  runnableServer : Runnable server
  clientRole : roleOf client = .client
  serverRole : roleOf server = .server
  verb : client.verb = .Write
  count : server.count = client.count
  length : server.length = client.length

/-- Both plans. -/
def plans (o : ByteOrder) (client server : DccsParameters) (r : Role) : Plan :=
  controlPlan o (paramsOf client server r) r

namespace Matched

variable {client server : DccsParameters} (h : Matched client server)
include h

theorem runnable (r : Role) : Runnable (paramsOf client server r) := by
  cases r with
  | client => exact h.runnableClient
  | server => exact h.runnableServer

theorem role (r : Role) : roleOf (paramsOf client server r) = r := by
  cases r with
  | client => exact h.clientRole
  | server => exact h.serverRole

theorem count_eq (r : Role) : (paramsOf client server r).count = client.count := by
  cases r with
  | client => rfl
  | server => exact h.count

theorem side_count (r : Role) (requests : List DccsRequest) :
    (controlSide (paramsOf client server r) r requests).count = client.count := by
  cases r with
  | client => rfl
  | server => exact h.count

/-- There is at least one round. -/
theorem count_le_total : server.count ≤ total server :=
  Nat.le_mul_of_pos_left _ h.runnableServer.accepted.checked.2.2.2.2

end Matched

section queues
variable {o : ByteOrder} {client server : DccsParameters} {net : Net}

/-! ## What is written where -/

/-- Behind the request blocks, only receives write. -/
theorem reserved {params : DccsParameters} {r : Role} {l : Local} (haccepted : Accepted params)
    (h : (controlPlan o params r).Kept l) {K : Nat → Prop} {b : Nat} (hb : 2 * params.mrCount ≤ b)
    (hrecvs : ∀ j < 2, (controlSide params r []).rb + 1 - j = b → K j)
    (hend : endBlock params .client ≠ b) : l.Reserved K b where
  recvs j recv x hj hx hxb := by
    have hplan : Receives params r l j recv := h.recvs j recv hj
    cases hplan with
    | address hexpects =>
      rw [hexpects.spot] at hx
      cases hx
      exact hrecvs j hexpects.lt hxb
    | end_ _ _ _ hspot =>
      rw [hspot] at hx
      cases hx
      exact absurd hxb hend
  reads wr hwr hv x _ _ := by
    obtain ⟨k, hk⟩ := List.getElem?_of_mem hwr
    have hplan : Sends o params r l k wr := h.sends k wr hk
    rcases hplan.verb with hs | ⟨hw, -⟩
    · rw [hv] at hs
      cases hs
    · rw [hv] at hw
      cases hw
  grants region hmem ha hptr := by
    rcases h.regions region hmem with hmsgs | ⟨-, b', hptr', hlt⟩
    · rw [ha] at hmsgs
      cases hmsgs
    · rw [hptr'] at hptr
      have := Option.some.inj hptr
      omega
  stores s hs hptr := by
    obtain ⟨k, hlt, request, part, ⟨-, bufBase, hg, hbuf⟩, -, rfl⟩ := h.mem_stores hs
    have hptr : request.buf.block = some b := hptr
    rw [hbuf] at hptr
    have hgroup := Option.some.inj (hg.ptr.symm.trans hptr)
    have := haccepted.group_lt hlt
    omega

/-- The first two requests of a queue are messages. -/
theorem sends_first (ht : Tracked (plans o client server) net) (r : Role) {k : Nat} (hk : k < 2) :
    (sends (net.loc r).sq)[k]? = (net.loc r).sq[k]? := by
  refine getElem?_filter_first hk fun j hj wr hwr => ?_
  have hplan : Sends o (paramsOf client server r) r (net.loc r) j wr := (ht.kept r).sends j wr hwr
  rcases hplan.verb with hv | ⟨-, -, hle, -⟩
  · simp [hv]
  · omega

/-- **What is read in the exchange** is what the peer has announced. -/
theorem read_announced (h : Matched client server) (ht : Tracked (plans o client server) net) {r : Role}
    {p : Ptr} {len k : Nat} {data : List UInt8} (hk : k < 2) (hread : net.read r p len = some data)
    (ha : Arrived (net.loc r) k p len) :
    ∃ requests, Slots (paramsOf client server r.peer) (net.loc r.peer) requests ∧
      ExchangeData o requests client.count k data := by
  have ⟨b, bytes, recv, wc, hpb, _, _, hrq, hspot, hrlen, _⟩ := ha
  have hplan : Receives (paramsOf client server r) r (net.loc r) k recv := (ht.kept r).recvs k recv hrq
  cases hplan with
  | end_ _ h2 _ _ => omega
  | address hexpects =>
    have hspot' := hexpects.spot
    have hlen := hexpects.len
    rw [hspot] at hspot'
    cases hspot'
    obtain ⟨wr, hsend, hpayload⟩ := ht.holds.read_message hread ha fun b' hb' => by
      rw [hpb] at hb'
      cases hb'
      refine reserved (h.runnable r).accepted (ht.kept r) ?_ (fun j hj he => ?_) ?_
      · cases r <;> simp only [controlSide] <;> omega
      · cases r <;> simp only [controlSide] at he <;> omega
      · cases r <;> simp only [controlSide, endBlock] <;> omega
    rw [sends_first ht r.peer hk] at hsend
    have hplan : Sends o (paramsOf client server r.peer) r.peer (net.loc r.peer) k wr :=
      (ht.kept r.peer).sends k wr hsend
    cases hplan with
    | write _ _ hle _ _ _ => omega
    | end_ _ he _ => omega
    | announce requests hslots hannounced =>
      obtain ⟨infos, hinfos, hwrLen, hbytes⟩ := hannounced.payload
      have hsize := hannounced.size
      have hsent : (controlSide (paramsOf client server r.peer) r.peer requests).sent = requests := by
        cases r <;> rfl
      rw [h.side_count] at hsize hinfos hwrLen hbytes hlen
      rw [hsent] at hinfos
      refine ⟨requests, hslots, hsize, infos, hinfos, ?_⟩
      refine hpayload _ _ hannounced.spot hwrLen hbytes ?_ ?_
      · refine reserved (h.runnable r.peer).accepted (ht.kept r.peer) ?_ (fun j hj he => ?_) ?_
        · cases r <;> simp only [controlSide, Role.peer] <;> omega
        · cases r <;> simp only [controlSide, Role.peer] at he <;> omega
        · cases r <;> simp only [controlSide, endBlock, Role.peer] <;> omega
      · rw [length_exchangePayload hinfos hsize, ← hrlen, hlen]

/-! ## How far the two processes are -/

/-- The messages of a process are its announcement and the end message. -/
theorem Sends.message_iff {params : DccsParameters} {r : Role} {l : Local} {k : Nat} {wr : SendWr}
    (h : Sends o params r l k wr) :
    wr.verb = .Send ↔ k < 2 ∨ r = .server ∧ k = total params + 2 := by
  cases h with
  | announce _ _ ha => exact ⟨fun _ => .inl ha.lt, fun _ => ha.verb⟩
  | write request hr hle hlt _ hwr =>
    rw [hwr]
    refine ⟨fun hv => ?_, fun hor => by omega⟩
    cases hv
  | end_ hr hk hend => exact ⟨fun _ => .inr ⟨hr, hk⟩, fun _ => hend.verb⟩

/-- How far the queues can get, and what has arrived of the other host's messages. -/
structure Counted (client server : DccsParameters) (net : Net) : Prop where
  sent : ∀ r, (net.loc r).sq.length ≤ allSends (paramsOf client server r) r
  posted : ∀ r, (net.loc r).rq.length ≤ allRecvs r
  toServer : (net.host .server).rdone = (net.host .client).sdone
  toClient : (net.host .client).rdone = min (net.host .server).sdone 2 +
    if total server + 2 < (net.host .server).sdone then 1 else 0
  clientOrder : 0 < (net.loc .client).rq.length → 2 ≤ (net.loc .client).sWcs.length
  serverOrder : 0 < (net.loc .server).sq.length → 2 ≤ (net.loc .server).rWcs.length

/-- The messages among the requests carried out. -/
theorem msgs_eq_filter (net : Net) (r : Role) :
    net.msgs r = (net.done r).filter fun t => decide (t.wr.verb = .Send) := by
  rw [Net.msgs, Net.done, List.filter_filter]
  exact List.filter_congr fun t _ => by simp [Bool.and_comm]

theorem counted (ht : Tracked (plans o client server) net) (hb : net.broken = false) :
    Counted client server net := by
  have hsends : ∀ r k wr, (net.loc r).sq[k]? = some wr →
      Sends o (paramsOf client server r) r (net.loc r) k wr := fun r => (ht.kept r).sends
  have hrecvs : ∀ r k recv, (net.loc r).rq[k]? = some recv →
      Receives (paramsOf client server r) r (net.loc r) k recv := fun r => (ht.kept r).recvs
  have hmessage : ∀ r k t, (net.done r)[k]? = some t →
      (t.wr.verb = .Send ↔ k < 2 ∨ r = .server ∧ k = total (paramsOf client server r) + 2) :=
    fun r k t hk => (hsends r k t.wr (ht.holds.done_sent hk)).message_iff
  obtain ⟨hcs, hsr, -⟩ := ht.holds.standing hb .client
  obtain ⟨hss, hcr, -⟩ := ht.holds.standing hb .server
  refine ⟨fun r => length_le_of_getElem? fun k wr hk => ?_,
    fun r => length_le_of_getElem? fun k recv hk => ?_, ?_, ?_, fun hpos => ?_, fun hpos => ?_⟩
  · cases hsends r k wr hk with
    | announce _ _ ha =>
      have := ha.lt
      cases r <;> simp only [allSends] <;> omega
    | write _ hr _ _ _ _ | end_ hr _ _ =>
      subst hr
      simp only [allSends, paramsOf] at *
      omega
  · cases hrecvs r k recv hk with
    | address hexpects =>
      have := hexpects.lt
      cases r <;> simp only [allRecvs] <;> omega
    | end_ hr _ _ _ =>
      subst hr
      simp only [allRecvs]
      omega
  · have hsr : (net.host .server).rdone = (net.msgs .client).length := hsr
    have hall : net.msgs .client = net.done .client := by
      rw [msgs_eq_filter]
      refine List.filter_eq_self.2 fun t hmem => ?_
      obtain ⟨k, hk⟩ := List.getElem?_of_mem hmem
      have hlt : k < 2 := by
        cases hsends .client k t.wr (ht.holds.done_sent hk) with
        | announce _ _ ha => exact ha.lt
        | write _ hr _ _ _ _ => exact absurd hr (by decide)
        | end_ hr _ _ => exact absurd hr (by decide)
      exact decide_eq_true ((hmessage .client k t hk).2 (.inl hlt))
    rw [hsr, hcs, hall]
  · have hcr : (net.host .client).rdone = (net.msgs .server).length := hcr
    rw [hcr, hss, msgs_eq_filter]
    refine length_filter_ends (by omega) _ fun k t hk => ?_
    rw [decide_eq_true_iff, hmessage .server k t hk]
    exact ⟨fun hor => hor.imp_right (·.2), fun hor => hor.imp_right fun he => ⟨rfl, he⟩⟩
  · cases hrecvs .client 0 _ (List.getElem?_eq_getElem hpos) with
    | address hexpects => exact hexpects.after
    | end_ _ h2 _ _ => omega
  · cases hsends .server 0 _ (List.getElem?_eq_getElem hpos) with
    | announce _ _ ha => exact ha.after
    | write _ _ hle _ _ _ => omega
    | end_ _ he _ => omega

/-! ## The writes -/

/-- `data` is what `run` has left in request `i` of `requests_out`: the bytes it came with, and the packet. -/
def FilledOut (params : DccsParameters) (l : Local) (i : Nat) (data : List UInt8) : Prop :=
  ∃ block, l.blocks[(outSlotOf params i).1]? = some block ∧
    data = slice (outSlotOf params i).2 params.length (l.written (outSlotOf params i).1)

theorem FilledOut.extends {params : DccsParameters} {l l' : Local} {i : Nat} {data : List UInt8}
    (h : FilledOut params l i data) (he : l.Extends l') (hs : l'.stores = l.stores) :
    FilledOut params l' i data := by
  obtain ⟨block, hblock, hdata⟩ := h
  exact ⟨block, he.block hblock, by rw [he.written hblock hs, hdata]⟩

theorem FilledOut.unique {params : DccsParameters} {l : Local} {i : Nat} {data data' : List UInt8}
    (h : FilledOut params l i data) (h' : FilledOut params l i data') : data = data' := by
  obtain ⟨-, -, hdata⟩ := h
  obtain ⟨-, -, hdata'⟩ := h'
  exact hdata.trans hdata'.symm

/-- The packet comes first. -/
theorem FilledOut.beginsWithPacket (h : Matched client server) (ht : Tracked (plans o client server) net)
    (hall : 2 * server.count ≤ (net.loc .server).stores.length) {i : Nat} (hi : i < client.count)
    {data : List UInt8} (hd : FilledOut server (net.loc .server) i data) :
    BeginsWithPacket server data := by
  obtain ⟨-, -, rfl⟩ := hd
  exact ControlExec.beginsWithPacket h.runnableServer.accepted h.runnableServer.buffers
    h.runnableServer.packets (ht.kept .server) hall (by rwa [h.count])

/-- What a server has read in the exchange is what the client has announced. -/
def Informed (o : ByteOrder) (client : DccsParameters) (net : Net) : Prop :=
  ∀ infos, (net.loc .server).loads[1]? = some infos →
    ∃ requests, Slots client (net.loc .client) requests ∧
      localMrInfos o requests client.count = some infos

/-- The remote side of a request of the server is the client's request of the same number. -/
theorem Informed.remote (hk : Informed o client net) {i : Nat} (hi : i < client.count)
    {request : DccsRequest}
    (hrequest : OutRequest o server (net.loc .server) i request) :
    ∃ peer mr, Slot client (net.loc .client) i peer ∧ peer.mr = some mr ∧
      request.remoteAddr = UInt64.ofNat peer.buf.addr ∧ request.remoteRkey = mr.rkey := by
  obtain ⟨infos, hinfos, hsame⟩ := hrequest.fetched
  obtain ⟨requests, hslots, hlocal⟩ := hk infos hinfos
  obtain ⟨mr, hmr, hslice⟩ := (localMrInfos_some o hlocal).2 i hi
  rw [storeMrInfo_mrInfoBytes o o hslice] at hsame
  refine ⟨reqAt requests i, mr, hslots.slot i hi, hmr, ?_, ?_⟩
  · rw [← hsame]
  · rw [← hsame]

/-- `t` moves request `n` of the server's `requests_out` to the client. -/
structure Carries (client server : DccsParameters) (net : Net) (n : Nat) (t : Transfer) : Prop where
  dst : t.dst = .client
  place : (t.block, t.off) = slotOf client n
  block : ∃ block, (net.loc .server).blocks[(outSlotOf server n).1]? = some block
  original : net.Original .server (outSlotOf server n).1 (outSlotOf server n).2 client.length t.data
  length : t.data.length = client.length

/-- **A write** moves the request whose turn it is. -/
theorem write_carries (h : Matched client server) (ht : Tracked (plans o client server) net)
    (hk : Informed o client net) {k : Nat} (hle : 2 ≤ k) (hlt : k < total server + 2) {t : Transfer}
    (hdone : (net.done .server)[k]? = some t) :
    Carries client server net ((k - 2) % client.count) t := by
  obtain ⟨hmem, hsrc⟩ := Net.mem_done.1 (List.mem_of_getElem? hdone)
  have hsound := ht.holds.sound t hmem
  have hplan : Sends o server .server (net.loc .server) k t.wr :=
    (ht.kept .server).sends k t.wr (ht.holds.done_sent hdone)
  cases hplan with
  | announce _ _ ha => exact absurd ha.lt (Nat.not_lt.2 hle)
  | end_ _ he _ => exact absurd he hlt.ne
  | write request _ _ _ hrequest hwr =>
    rw [h.count] at hrequest
    have hmod : (k - 2) % client.count < client.count :=
      Nat.mod_lt _ h.runnableClient.accepted.checked.1
    have hlen : t.wr.len = client.length := by
      rw [hwr]
      exact hrequest.slot.length.trans h.length
    obtain ⟨hdst, ⟨b, off, hspot, horiginal⟩, j, region, hj, haccess, hkey, hplace⟩ :=
      hsound.write (by rw [hwr]; rfl)
    rw [hsrc] at hdst hspot horiginal
    have hdst : t.dst = .client := hdst
    have hout := hrequest.slot.spot h.runnableServer.accepted.countPerMr_pos h.runnableServer.buffers
    have hown : (net.loc .server).spot t.wr.mr t.wr.addr t.wr.len =
        some (outSlotOf server ((k - 2) % client.count)) := by
      rw [hlen, ← h.length, hwr]
      exact hout
    rw [hown] at hspot
    cases hspot
    rw [hlen] at horiginal
    -- the key and the address are those the client has announced
    obtain ⟨peer, mr, hslot, hmr, haddr, hrkey⟩ := hk.remote hmod hrequest
    have hwrite : accessOf client.verb = .write := by rw [h.verb]; rfl
    have hraddr : t.wr.raddr = UInt64.ofNat peer.buf.addr := by
      rw [hwr]
      exact haddr
    have hrkey' : t.wr.rkey = mr.rkey := by
      rw [hwr]
      exact hrkey
    rw [hdst] at hj hplace
    rw [hraddr] at hplace
    obtain ⟨-, bufBase, hg, -⟩ := hrequest.slot
    obtain ⟨bytes, hblock, -⟩ := hg.block
    refine ⟨hdst, ?_, ⟨_, hblock⟩, horiginal, hsound.length.trans hlen⟩
    refine hslot.granted h.runnableClient.accepted.countPerMr_pos h.runnableClient.buffers
      h.runnableClient.accepted.checked.2.1 (ht.kept .client).keys hmr hj ?_ ?_ ?_ hplace
    · rw [haccess]
      decide
    · rw [haccess, hwrite]
    · rw [hkey, hrkey']

/-- A message lands behind the requests. -/
theorem message_block (ht : Tracked (plans o client server) net) {t : Transfer}
    (hmem : t ∈ net.transfers) (hv : t.wr.verb = .Send) :
    2 * (paramsOf client server t.dst).mrCount ≤ t.block := by
  obtain ⟨hdst, -, recv, hr, -, hspot⟩ := (ht.holds.sound t hmem).send hv
  obtain ⟨j, hj⟩ := List.getElem?_of_mem (Net.mem_msgs.2 ⟨hmem, rfl, hv⟩)
  obtain ⟨recv', hr', hrq⟩ := ht.holds.msgs_recv hj
  rw [hr] at hr'
  cases hr'
  rw [← hdst] at hrq
  have hplan : Receives (paramsOf client server t.dst) t.dst (net.loc t.dst) j recv :=
    (ht.kept t.dst).recvs j recv hrq
  cases hplan with
  | address hexpects =>
    have hlt := hexpects.lt
    have hspot' := hexpects.spot
    rw [hspot] at hspot'
    have hblock : t.block = _ := congrArg Prod.fst (Option.some.inj hspot')
    rw [hblock]
    cases t.dst <;> simp only [controlSide] <;> omega
  | end_ hr _ _ hspot' =>
    rw [hspot] at hspot'
    have hblock : t.block = _ := congrArg Prod.fst (Option.some.inj hspot')
    rw [hblock, hr]
    simp only [endBlock]
    omega

/-- Only the writes of the rounds reach the requests. -/
theorem request_write (ht : Tracked (plans o client server) net) {t : Transfer}
    (hmem : t ∈ net.transfers) (hblock : t.block < 2 * (paramsOf client server t.dst).mrCount) :
    ∃ k, 2 ≤ k ∧ k < total server + 2 ∧ (net.done .server)[k]? = some t := by
  obtain ⟨k, hk⟩ := List.getElem?_of_mem (Net.mem_done.2 ⟨hmem, rfl⟩)
  have hplan : Sends o (paramsOf client server t.src) t.src (net.loc t.src) k t.wr :=
    (ht.kept t.src).sends k t.wr (ht.holds.done_sent hk)
  rcases hplan.verb with hv | ⟨-, hsrc, hle, hlt⟩
  · exact absurd (message_block ht hmem hv) (Nat.not_le.2 hblock)
  · rw [hsrc] at hk hlt
    exact ⟨k, hle, hlt, hk⟩

/-- Nothing is transferred to the requests of a server. -/
theorem server_untouched (h : Matched client server) (ht : Tracked (plans o client server) net)
    (hk : Informed o client net) {b : Nat} (hb : b < 2 * server.mrCount) :
    ¬ net.Touched .server b := by
  rintro ⟨t, hmem, hdst, rfl⟩
  obtain ⟨k, hle, hlt, hdone⟩ := request_write ht hmem (by rw [hdst]; exact hb)
  have hc := write_carries h ht hk hle hlt hdone
  rw [hc.dst] at hdst
  cases hdst

theorem outSlotOf_lt (h : Matched client server) {i : Nat} (hi : i < client.count) :
    (outSlotOf server i).1 < 2 * server.mrCount := by
  have := h.runnableServer.accepted.group_lt (show i < server.count by rwa [h.count])
  simp only [outSlotOf]
  omega

/-- What is moved is what the server's request was filled with. -/
theorem Carries.filled (h : Matched client server) (ht : Tracked (plans o client server) net)
    (hk : Informed o client net) {n : Nat} (hn : n < client.count) {t : Transfer}
    (hc : Carries client server net n t) : FilledOut server (net.loc .server) n t.data := by
  obtain ⟨block, hblock⟩ := hc.block
  refine ⟨block, hblock, ?_⟩
  rw [hc.original (server_untouched h ht hk (outSlotOf_lt h hn)), h.length]

/-- Whatever else is written to the block of a request is the same, or goes to another request. -/
theorem Carries.undisturbed (h : Matched client server) (ht : Tracked (plans o client server) net)
    (hk : Informed o client net) {n : Nat} (hn : n < client.count) {t : Transfer}
    (hc : Carries client server net n t) {u : Transfer} (hu : u ∈ net.transfers) (hdst : u.dst = t.dst)
    (hblock : u.block = t.block) :
    (u.off = t.off ∧ u.data = t.data) ∨ t.off + t.data.length ≤ u.off ∨
      u.off + u.data.length ≤ t.off := by
  have hrequest : u.block < 2 * (paramsOf client server u.dst).mrCount := by
    have hlt := h.runnableClient.accepted.group_lt hn
    have hfst := congrArg Prod.fst hc.place
    simp only [slotOf] at hfst
    rw [hdst, hblock, hc.dst]
    simp only [paramsOf]
    omega
  obtain ⟨k, hle, hlt, hdone⟩ := request_write ht hu hrequest
  have hc' := write_carries h ht hk hle hlt hdone
  by_cases hsame : (k - 2) % client.count = n
  · rw [hsame] at hc'
    have hplace := hc'.place.trans hc.place.symm
    exact .inl ⟨(Prod.mk.inj hplace).2, (hc'.filled h ht hk hn).unique (hc.filled h ht hk hn)⟩
  · right
    have hapart := slotOf_apart client hsame
    rw [← hc.place, ← hc'.place] at hapart
    rw [hc.length, hc'.length]
    rcases hapart with hne | hle | hle
    · exact absurd hblock hne
    · exact .inr hle
    · exact .inl hle

/-- What is read of a request of the server is what it was filled with. -/
theorem filled_of_read (h : Matched client server) (ht : Tracked (plans o client server) net)
    (hk : Informed o client net) {i : Nat} (hi : i < client.count) {request : DccsRequest}
    (hslot : OutSlot server (net.loc .server) i request) {data : List UInt8}
    (hread : net.read .server request.buf server.length = some data) :
    FilledOut server (net.loc .server) i data := by
  obtain ⟨-, bufBase, hg, hbuf⟩ := hslot
  obtain ⟨bytes, hblock, -⟩ := hg.block
  have hblock : (net.loc .server).blocks[(outSlotOf server i).1]? = some ⟨bufBase.addr, bytes⟩ :=
    hblock
  have hptr : request.buf.block = some (outSlotOf server i).1 := by rw [hbuf]; exact hg.ptr
  have haddr : request.buf.addr = bufBase.addr + (outSlotOf server i).2 := by rw [hbuf]; rfl
  refine ⟨_, hblock, ?_⟩
  simp only [Net.read, hptr, hblock, Option.bind_some] at hread
  split at hread
  · cases hread
    rw [Net.content_original (server_untouched h ht hk (outSlotOf_lt h hi)), haddr,
      Nat.add_sub_cancel_left]
  · cases hread

/-- **When all writes are through**, each request of the client holds what the server's request of the
same number was filled with. -/
theorem holds_of_done (h : Matched client server) (ht : Tracked (plans o client server) net)
    (hk : Informed o client net) (hall : total server + 2 ≤ (net.done .server).length) {i : Nat}
    (hi : i < client.count) :
    ∃ data, FilledOut server (net.loc .server) i data ∧ RdmaExec.Holds client net .client i data := by
  -- the first round is enough
  have hcount := h.count
  have hlt : i + 2 < total server + 2 := by
    have := h.count_le_total
    omega
  obtain ⟨t, hdone⟩ : ∃ t, (net.done .server)[i + 2]? = some t :=
    ⟨_, List.getElem?_eq_getElem (Nat.lt_of_lt_of_le hlt hall)⟩
  have hc := write_carries h ht hk (Nat.le_add_left 2 i) hlt hdone
  rw [Nat.add_sub_cancel, Nat.mod_eq_of_lt hi] at hc
  have hmem := (Net.mem_done.1 (List.mem_of_getElem? hdone)).1
  have hcontent := Net.content_of_mem ht.holds.sound hmem fun u hu => hc.undisturbed h ht hk hi hu
  obtain ⟨block, hblock, hlen⟩ := (ht.holds.sound t hmem).inside
  have hb : t.block = (slotOf client i).1 := congrArg Prod.fst hc.place
  have ho : t.off = (slotOf client i).2 := congrArg Prod.snd hc.place
  rw [hc.dst, hb] at hblock hcontent
  rw [ho, hc.length] at hlen hcontent
  have hholds := RdmaExec.holds_of_content client hblock hlen
  rw [hcontent] at hholds
  exact ⟨t.data, hc.filled h ht hk hi, hholds⟩

end queues

end ControlExec

end RdmaOpera
