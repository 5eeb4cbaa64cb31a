import RdmaOpera.EndMarker

/-!
# The transfers between the two processes of `rdma_exec`

A client and a server with the same verb, count, length and repeat. Every transfer is a message of
the exchange, a data request or the end message (`ClientSends`); the `k`-th data request moves
request `k % count` from the host the data comes from to the other one, whichever verb does it, and
nothing else is ever written to a request.
-/

namespace RdmaOpera

open Lib Prog

namespace RdmaExec

/-- A client and a server that are meant for each other, with buffers whose sizes do not wrap. -/
structure Matched (client server : DccsParameters) : Prop where
  clientAccepted : Accepted client
  serverAccepted : Accepted server
  clientRole : roleOf client = .client
  serverRole : roleOf server = .server
  verb : server.verb = client.verb
  count : server.count = client.count
  length : server.length = client.length
  repeat_ : server.repeat_ = client.repeat_
  clientSize : countPerMr client * client.length < 2 ^ 64
  serverSize : countPerMr server * server.length < 2 ^ 64

/-- The parameters of each host. -/
def paramsOf (client server : DccsParameters) : Role → DccsParameters
  | .client => client
  | .server => server

/-- The host the data comes from. -/
def source (params : DccsParameters) : Role := if params.verb = .Read then .server else .client

/-- `data` is what request `i` was filled with. -/
def FilledWith (params : DccsParameters) (l : Local) (i : Nat) (data : List UInt8) : Prop :=
  ∃ block, l.blocks[(slotOf params i).1]? = some block ∧
    data = slice (slotOf params i).2 params.length block.bytes

theorem FilledWith.extends {params : DccsParameters} {l l' : Local} {i : Nat} {data : List UInt8}
    (h : FilledWith params l i data) (he : l.Extends l') : FilledWith params l' i data := by
  obtain ⟨block, hblock, hdata⟩ := h
  exact ⟨block, he.block hblock, hdata⟩

theorem FilledWith.unique {params : DccsParameters} {l : Local} {i : Nat} {data data' : List UInt8}
    (h : FilledWith params l i data) (h' : FilledWith params l i data') : data = data' := by
  obtain ⟨block, hblock, hdata⟩ := h
  obtain ⟨block', hblock', hdata'⟩ := h'
  rw [hblock] at hblock'
  cases hblock'
  exact hdata.trans hdata'.symm

namespace Matched

variable {client server : DccsParameters} (h : Matched client server)
include h

theorem accepted (r : Role) : Accepted (paramsOf client server r) := by
  cases r with
  | client => exact h.clientAccepted
  | server => exact h.serverAccepted

theorem size (r : Role) :
    countPerMr (paramsOf client server r) * (paramsOf client server r).length < 2 ^ 64 := by
  cases r with
  | client => exact h.clientSize
  | server => exact h.serverSize

theorem paramsOf_count (r : Role) : (paramsOf client server r).count = client.count := by
  cases r with
  | client => rfl
  | server => exact h.count

theorem paramsOf_length (r : Role) : (paramsOf client server r).length = client.length := by
  cases r with
  | client => rfl
  | server => exact h.length

theorem total_eq : total server = total client := by rw [total, total, h.repeat_, h.count]

theorem dataMessages_eq : dataMessages server = dataMessages client := by
  rw [dataMessages, dataMessages, h.verb, h.total_eq]

theorem count_le_total : client.count ≤ total client :=
  Nat.le_mul_of_pos_left _ h.clientAccepted.checked.2.2.2.2

end Matched

section transfers
variable {o : ByteOrder} {client server : DccsParameters} {net : Net}

/-- All requests of a server are messages. -/
theorem server_sends {params : DccsParameters} {l : Local} (hkept : (serverPlan o params).Kept l)
    {wr : SendWr} (hwr : wr ∈ l.sq) :
    wr.verb = .Send := by
  obtain ⟨k, hk⟩ := List.getElem?_of_mem hwr
  obtain ⟨-, requests, -, ha⟩ := hkept.sends k wr hk
  exact ha.verb

/-- What a server sends arrives in the blocks of the exchange. -/
theorem server_transfer (ht : Tracked (execPlan o client server) net) {t : Transfer}
    (hmem : t ∈ net.transfers) (hsrc : t.src = .server) :
    t.dst = .client ∧ client.mrCount ≤ t.block := by
  have hwr : t.wr ∈ (net.loc .server).sq :=
    (ht.holds.done_sq .server).subset (List.mem_map.2 ⟨t, Net.mem_done.2 ⟨hmem, hsrc⟩, rfl⟩)
  have hv : t.wr.verb = .Send := server_sends (ht.kept .server) hwr
  obtain ⟨hdst, -, recv, hr, -, hspot⟩ := (ht.holds.sound t hmem).send hv
  rw [hsrc] at hdst
  have hdst : t.dst = .client := hdst
  obtain ⟨j, hj⟩ := List.getElem?_of_mem (Net.mem_msgs.2 ⟨hmem, hsrc, hv⟩)
  obtain ⟨recv', hr', hrq⟩ := ht.holds.msgs_recv hj
  rw [hr] at hr'
  cases hr'
  obtain ⟨-, hlt, -, hspot', -⟩ := (ht.kept .client).recvs j recv hrq
  rw [hdst, hspot'] at hspot
  have hblock := congrArg Prod.fst (Option.some.inj hspot)
  simp only [execSide] at hblock
  exact ⟨hdst, by omega⟩

/-- The receive that a message of the client has filled. -/
theorem client_message (ht : Tracked (execPlan o client server) net) {k : Nat} {t : Transfer}
    (hmsg : (net.msgs .client)[k]? = some t) :
    t.dst = .server ∧ ∃ recv, ServerReceives server (net.loc .server) k recv ∧ t.wr.len ≤ recv.len ∧
      (net.loc .server).spot recv.mr recv.addr recv.len = some (t.block, t.off) := by
  obtain ⟨hmem, hsrc, hv⟩ := Net.mem_msgs.1 (List.mem_of_getElem? hmsg)
  obtain ⟨hdst, -, recv, hr, hle, hspot⟩ := (ht.holds.sound t hmem).send hv
  rw [hsrc] at hdst
  have hdst : t.dst = .server := hdst
  obtain ⟨recv', hr', hrq⟩ := ht.holds.msgs_recv hmsg
  rw [hr] at hr'
  cases hr'
  rw [hdst] at hspot
  exact ⟨hdst, recv, (ht.kept .server).recvs k recv hrq, hle, hspot⟩

/-- If the verb is `Send`, the `k`-th request carried out is the `k`-th message. -/
theorem client_msgs (ht : Tracked (execPlan o client server) net) (hverb : client.verb = .Send) :
    net.msgs .client = net.done .client :=
  ht.holds.msgs_eq_done fun wr hwr => by
    rw [← sends_of_send (ht.kept .client) hverb] at hwr
    exact of_decide_eq_true (List.mem_filter.1 hwr).2

/-- A message of the client behind its data messages is the end message, and the other way round. -/
theorem marked_iff (h : Matched client server) (ht : Tracked (execPlan o client server) net) :
    total client < (net.done .client).length ↔ dataMessages server < (net.msgs .client).length := by
  have hkept : (clientPlan o client).Kept (net.loc .client) := ht.kept .client
  by_cases hverb : client.verb = .Send
  · rw [client_msgs ht hverb, h.dataMessages_eq, dataMessages, if_pos hverb]
  · rw [h.dataMessages_eq, dataMessages, if_neg hverb]
    constructor
    · intro hlt
      have hdone := List.getElem?_eq_getElem hlt
      have hplan : ClientSends o client (net.loc .client) (total client) _ :=
        hkept.sends _ _ (ht.holds.done_sent hdone)
      cases hplan with
      | data _ _ hk _ _ => exact absurd hk (Nat.lt_irrefl _)
      | end_ _ hend =>
        obtain ⟨hmem, hsrc⟩ := Net.mem_done.1 (List.mem_of_getElem? hdone)
        exact List.length_pos_of_mem (Net.mem_msgs.2 ⟨hmem, hsrc, hend.verb⟩)
    · intro hlt
      obtain ⟨t, hmsg⟩ := List.exists_mem_of_length_pos hlt
      obtain ⟨hmem, hsrc, hv⟩ := Net.mem_msgs.1 hmsg
      obtain ⟨k, hk⟩ := List.getElem?_of_mem (Net.mem_done.2 ⟨hmem, hsrc⟩)
      have hplan : ClientSends o client (net.loc .client) k t.wr :=
        hkept.sends k t.wr (ht.holds.done_sent hk)
      have hlast := (List.getElem?_eq_some_iff.1 hk).1
      cases hplan with
      | data request _ hlt' hrequest hwr =>
        exact absurd (((requestWr_fields hwr).verb.trans hrequest.slot.verb).symm.trans hv) hverb
      | end_ he _ => rwa [he] at hlast

/-- The end message arrives in the block for it. -/
theorem end_transfer (h : Matched client server) (ht : Tracked (execPlan o client server) net)
    {t : Transfer} (hdone : (net.done .client)[total client]? = some t)
    (hend : EndMessage client (net.loc .client) t.wr) :
    t.dst = .server ∧ t.block = endBlock server := by
  obtain ⟨hmem, hsrc⟩ := Net.mem_done.1 (List.mem_of_getElem? hdone)
  obtain ⟨j, hj, hnot⟩ : ∃ j, (net.msgs .client)[j]? = some t ∧ ¬ j < dataMessages server := by
    by_cases hverb : client.verb = .Send
    · refine ⟨total client, by rw [client_msgs ht hverb]; exact hdone, ?_⟩
      rw [h.dataMessages_eq, dataMessages, if_pos hverb]
      exact Nat.lt_irrefl _
    · obtain ⟨j, hj⟩ := List.getElem?_of_mem (Net.mem_msgs.2 ⟨hmem, hsrc, hend.verb⟩)
      refine ⟨j, hj, ?_⟩
      rw [h.dataMessages_eq, dataMessages, if_neg hverb]
      exact Nat.not_lt_zero j
  obtain ⟨hdst, recv, hplan, -, hspot⟩ := client_message ht hj
  refine ⟨hdst, ?_⟩
  cases hplan with
  | data _ hk _ _ => exact absurd hk hnot
  | end_ _ _ hspot' =>
    rw [hspot'] at hspot
    exact (congrArg Prod.fst (Option.some.inj hspot)).symm

/-- What a client has read in the exchange is what the server has announced. -/
structure Informed (o : ByteOrder) (client server : DccsParameters) (net : Net) : Prop where
  count : client.verb ≠ .Send → ∀ data, (net.loc .client).loads[0]? = some data →
    o.nat data = client.count
  infos : client.verb ≠ .Send → ∀ infos, (net.loc .client).loads[1]? = some infos →
    ∃ requests, Slots server (net.loc .server) requests ∧
      localMrInfos o requests client.count = some infos

/-- The remote side of a client's request is the server's request of the same number. -/
theorem Informed.remote (h : Matched client server) (hk : Informed o client server net) {n : Nat}
    (hn : n < client.count) {request : DccsRequest}
    (hrequest : DataRequest o client (net.loc .client) n request) (hverb : client.verb ≠ .Send) :
    ∃ peer mr, Slot server (net.loc .server) n peer ∧ peer.mr = some mr ∧
      request.remoteAddr = UInt64.ofNat peer.buf.addr ∧
      request.remoteRkey = mr.rkey := by
  obtain ⟨data, hdata, hinfos⟩ := hrequest.fetched hverb
  obtain ⟨infos, hinfos, hsame⟩ := hinfos (hk.count hverb data hdata)
  obtain ⟨requests, hslots, hlocal⟩ := hk.infos hverb infos hinfos
  obtain ⟨mr, hmr, hslice⟩ := (localMrInfos_some o hlocal).2 n hn
  rw [storeMrInfo_mrInfoBytes o o hslice] at hsame
  refine ⟨reqAt requests n, mr, hslots.slot n (by rw [h.count]; exact hn), hmr, ?_, ?_⟩
  · rw [← hsame]
  · rw [← hsame]

/-- `t` moves request `n` to the host that has not got the data. -/
structure Carries (client server : DccsParameters) (net : Net) (n : Nat) (t : Transfer) : Prop where
  dst : t.dst = (source client).peer
  place : (t.block, t.off) = slotOf (paramsOf client server (source client).peer) n
  block : ∃ block,
    (net.loc (source client)).blocks[(slotOf (paramsOf client server (source client)) n).1]? =
    some block ∧
    (slotOf (paramsOf client server (source client)) n).2 + client.length ≤ block.bytes.length
  original : net.Original (source client) (slotOf (paramsOf client server (source client)) n).1
    (slotOf (paramsOf client server (source client)) n).2 client.length t.data
  length : t.data.length = client.length

/-- A range that a key resolves to lies in a block. -/
theorem block_of_place {l : Local} {region : Region} {addr len : Nat} {x : Nat × Nat}
    (hx : l.place region addr len = some x) :
    ∃ block, l.blocks[x.1]? = some block ∧ x.2 + len ≤ block.bytes.length := by
  obtain ⟨block, -, hblock, -, hlen⟩ := Local.place_some hx
  exact ⟨block, hblock, hlen⟩

/-- What the peer's key of a request resolves to is that request. -/
theorem granted_slot (h : Matched client server) (ht : Tracked (execPlan o client server) net)
    {access : Access} {n : Nat} {peer : DccsRequest} {mr : Mr}
    (hpeer : Slot server (net.loc .server) n peer) (hmr : peer.mr = some mr) {wr : SendWr}
    (haddr : wr.raddr = UInt64.ofNat peer.buf.addr) (hrkey : wr.rkey = mr.rkey)
    (haccess : access = accessOf server.verb) (hmsgs : access ≠ .msgs) {x : Nat × Nat}
    (hx : net.Granted .server access wr x) :
    x = slotOf server n ∧ ∃ block, (net.loc .server).blocks[x.1]? = some block ∧
      x.2 + wr.len ≤ block.bytes.length := by
  obtain ⟨j, region, hj, ha, hkey, hplace⟩ := hx
  have hblock := block_of_place hplace
  rw [haddr] at hplace
  refine ⟨hpeer.granted h.serverAccepted.countPerMr_pos h.serverSize h.serverAccepted.checked.2.1
    (ht.kept .server).keys hmr hj ?_ ?_ ?_ hplace,
    hblock⟩
  · rw [ha]; exact hmsgs
  · rw [ha]; exact haccess
  · rw [hkey, hrkey]

/-- A data request that has been carried out, and the client's request behind it. -/
structure DataTransfer (o : ByteOrder) (client : DccsParameters) (net : Net) (k : Nat)
    (t : Transfer) (request : DccsRequest) : Prop where
  done : (net.done .client)[k]? = some t
  lt : k < total client
  planned : DataRequest o client (net.loc .client) (k % client.count) request
  fields : ∃ signaled, SameFields request signaled t.wr

theorem exists_dataTransfer (ht : Tracked (execPlan o client server) net) {k : Nat}
    (hlt : k < total client) {t : Transfer} (hdone : (net.done .client)[k]? = some t) :
    ∃ request, DataTransfer o client net k t request := by
  have hplan : ClientSends o client (net.loc .client) k t.wr :=
    (ht.kept .client).sends k t.wr (ht.holds.done_sent hdone)
  cases hplan with
  | data request signaled _ hrequest hwr =>
    exact ⟨request, hdone, hlt, hrequest, signaled, requestWr_fields hwr⟩
  | end_ he _ => omega

namespace DataTransfer

variable {k : Nat} {t : Transfer} {request : DccsRequest} (hd : DataTransfer o client net k t request)
include hd

theorem mem : t ∈ net.transfers := (Net.mem_done.1 (List.mem_of_getElem? hd.done)).1

theorem src : t.src = .client := (Net.mem_done.1 (List.mem_of_getElem? hd.done)).2

theorem len : t.wr.len = client.length := by
  obtain ⟨signaled, hfields⟩ := hd.fields
  exact hfields.len.trans hd.planned.slot.length

theorem verb : t.wr.verb = client.verb := by
  obtain ⟨signaled, hfields⟩ := hd.fields
  exact hfields.verb.trans hd.planned.slot.verb

/-- On the client's side it names the client's request. -/
theorem spot (h : Matched client server) :
    (net.loc .client).spot t.wr.mr t.wr.addr t.wr.len =
      some (slotOf client (k % client.count)) := by
  obtain ⟨signaled, hfields⟩ := hd.fields
  rw [hfields.mr, hfields.addr, hd.len]
  exact hd.planned.slot.spot h.clientAccepted.countPerMr_pos h.clientSize

theorem block (h : Matched client server) :
    ∃ block, (net.loc .client).blocks[(slotOf client (k % client.count)).1]? = some block ∧
    (slotOf client (k % client.count)).2 + client.length ≤ block.bytes.length := by
  obtain ⟨m, region, -, -, hplace⟩ := Local.spot_some (hd.spot h)
  rw [hd.len] at hplace
  exact block_of_place hplace

/-- What its remote key leads to is the server's request of the same number. -/
theorem remote (h : Matched client server) (ht : Tracked (execPlan o client server) net)
    (hk : Informed o client server net) (hverb : client.verb ≠ .Send) {x : Nat × Nat}
    (hx : net.Granted .server (accessOf client.verb) t.wr x) :
    x = slotOf server (k % client.count) ∧ ∃ block, (net.loc .server).blocks[x.1]? = some block ∧
      x.2 + client.length ≤ block.bytes.length := by
  have hmod : k % client.count < client.count := Nat.mod_lt k h.clientAccepted.checked.1
  obtain ⟨peer, mr, hslot, hmr, haddr, hrkey⟩ := hk.remote h hmod hd.planned hverb
  obtain ⟨signaled, hfields⟩ := hd.fields
  have hremote := hfields.remote (by rw [hd.planned.slot.verb]; exact hverb)
  have hmsgs : accessOf client.verb ≠ .msgs := by
    have hnone := h.clientAccepted.scanned.verb
    cases hv : client.verb <;> simp [hv, accessOf] at hverb hnone ⊢
  rw [← hd.len]
  exact granted_slot h ht hslot hmr (hremote.1.trans haddr) (hremote.2.trans hrkey) (by rw [h.verb]) hmsgs hx

/-- A message lands in the request whose receive it fills. -/
theorem carries_of_send (h : Matched client server) (ht : Tracked (execPlan o client server) net)
    (hverb : client.verb = .Send) :
    Carries client server net (k % client.count) t := by
  have hsound := ht.holds.sound t hd.mem
  have hsource : source client = .client := if_neg (by rw [hverb]; decide)
  obtain ⟨-, ⟨b, off, hspot, horiginal⟩, -⟩ := hsound.send (hd.verb.trans hverb)
  rw [hd.src, hd.spot h] at hspot
  cases hspot
  rw [hd.src, hd.len] at horiginal
  have hdone := hd.done
  rw [← client_msgs ht hverb] at hdone
  obtain ⟨hdst, recv, hplan, -, hrecv⟩ := client_message ht hdone
  refine ⟨by rw [hsource]; exact hdst, ?_, by rw [hsource]; exact hd.block h,
    by rw [hsource]; exact horiginal, hsound.length.trans hd.len⟩
  rw [hsource]
  cases hplan with
  | end_ he _ _ =>
    have hlt := hd.lt
    rw [h.dataMessages_eq, dataMessages, if_pos hverb] at he
    omega
  | data peer _ hslot hr =>
    rw [hr] at hrecv
    have hspot := hslot.spot h.serverAccepted.countPerMr_pos h.serverSize
    rw [← hslot.length, hrecv] at hspot
    rw [← h.count]
    exact Option.some.inj hspot

theorem carries_of_write (h : Matched client server) (ht : Tracked (execPlan o client server) net)
    (hk : Informed o client server net) (hverb : client.verb = .Write) :
    Carries client server net (k % client.count) t := by
  have hsound := ht.holds.sound t hd.mem
  have hsource : source client = .client := if_neg (by rw [hverb]; decide)
  obtain ⟨hdst, ⟨b, off, hspot, horiginal⟩, htarget⟩ := hsound.write (hd.verb.trans hverb)
  rw [hd.src, hd.spot h] at hspot
  cases hspot
  rw [hd.src, hd.len] at horiginal
  rw [hd.src] at hdst
  have hdst : t.dst = .server := hdst
  rw [hdst] at htarget
  have hplace := hd.remote h ht hk (by rw [hverb]; decide) (by rw [hverb]; exact htarget)
  exact ⟨by rw [hsource]; exact hdst, by rw [hsource]; exact hplace.1,
    by rw [hsource]; exact hd.block h, by rw [hsource]; exact horiginal,
    hsound.length.trans hd.len⟩

theorem carries_of_read (h : Matched client server) (ht : Tracked (execPlan o client server) net)
    (hk : Informed o client server net) (hverb : client.verb = .Read) :
    Carries client server net (k % client.count) t := by
  have hsound := ht.holds.sound t hd.mem
  have hsource : source client = .server := if_pos hverb
  obtain ⟨hdst, ⟨x, hgranted, horiginal⟩, htarget⟩ := hsound.read (hd.verb.trans hverb)
  rw [hd.src] at hdst hgranted horiginal htarget
  rw [hd.spot h] at htarget
  obtain ⟨rfl, hblock⟩ := hd.remote h ht hk (by rw [hverb]; decide) (by rw [hverb]; exact hgranted)
  rw [hd.len] at horiginal
  exact ⟨by rw [hsource]; exact hdst, by rw [hsource]; exact (Option.some.inj htarget).symm,
    by rw [hsource]; exact hblock,
    by rw [hsource]; exact horiginal, hsound.length.trans hd.len⟩

end DataTransfer

/-- **A data request** moves its request, whichever verb does it. -/
theorem data_transfer (h : Matched client server) (ht : Tracked (execPlan o client server) net)
    (hk : Informed o client server net) {k : Nat} (hlt : k < total client) {t : Transfer}
    (hdone : (net.done .client)[k]? = some t) :
    Carries client server net (k % client.count) t := by
  obtain ⟨request, hd⟩ := exists_dataTransfer ht hlt hdone
  cases hverb : client.verb with
  | None => exact absurd hverb h.clientAccepted.scanned.verb
  | Send => exact hd.carries_of_send h ht hverb
  | Write => exact hd.carries_of_write h ht hk hverb
  | Read => exact hd.carries_of_read h ht hk hverb

/-- What a transfer is. -/
inductive TransferKind (client server : DccsParameters) (net : Net) (t : Transfer) : Prop where
  | exchange (hdst : t.dst = .client) (hblock : client.mrCount ≤ t.block)
  | data (k : Nat) (hk : k < total client) (hdone : (net.done .client)[k]? = some t)
  | end_ (hdst : t.dst = .server) (hblock : t.block = endBlock server)

theorem transfer_kind (h : Matched client server) (ht : Tracked (execPlan o client server) net)
    {t : Transfer} (hmem : t ∈ net.transfers) :
    TransferKind client server net t := by
  cases hsrc : t.src with
  | server =>
    obtain ⟨hdst, hblock⟩ := server_transfer ht hmem hsrc
    exact .exchange hdst hblock
  | client =>
    obtain ⟨k, hk⟩ := List.getElem?_of_mem (Net.mem_done.2 ⟨hmem, hsrc⟩)
    have hplan : ClientSends o client (net.loc .client) k t.wr :=
      (ht.kept .client).sends k t.wr (ht.holds.done_sent hk)
    cases hplan with
    | data _ _ hlt _ _ => exact .data k hlt hk
    | end_ he hend =>
      subst he
      obtain ⟨hdst, hblock⟩ := end_transfer h ht hk hend
      exact .end_ hdst hblock

/-- Only data requests write to the request blocks. -/
theorem request_write (h : Matched client server) (ht : Tracked (execPlan o client server) net)
    {t : Transfer} (hmem : t ∈ net.transfers)
    (hblock : t.block < (paramsOf client server t.dst).mrCount) :
    ∃ k < total client, (net.done .client)[k]? = some t := by
  cases transfer_kind h ht hmem with
  | exchange hdst hle =>
    rw [hdst] at hblock
    exact absurd hle (Nat.not_le.2 hblock)
  | data k hk hdone => exact ⟨k, hk, hdone⟩
  | end_ hdst heq =>
    rw [hdst, heq] at hblock
    exact absurd (endBlock_ge server) (Nat.not_le.2 hblock)

theorem slotOf_lt (h : Matched client server) (r : Role) {n : Nat} (hn : n < client.count) :
    (slotOf (paramsOf client server r) n).1 < (paramsOf client server r).mrCount :=
  (h.accepted r).group_lt (by rwa [h.paramsOf_count])

/-- Nothing is written to the requests of the host the data comes from. -/
theorem source_untouched (h : Matched client server) (ht : Tracked (execPlan o client server) net)
    (hk : Informed o client server net) {b : Nat}
    (hb : b < (paramsOf client server (source client)).mrCount) :
    ¬ net.Touched (source client) b := by
  rintro ⟨t, hmem, hdst, rfl⟩
  rw [← hdst] at hb
  obtain ⟨k, hlt, hdone⟩ := request_write h ht hmem hb
  have hcarries := data_transfer h ht hk hlt hdone
  exact Role.peer_ne _ (hcarries.dst.symm.trans hdst)

/-- Neither program writes to its blocks. -/
theorem exec_written (ht : Tracked (execPlan o client server) net) (r : Role) {b : Nat} {block : Block}
    (hblock : (net.loc r).blocks[b]? = some block) : (net.loc r).written b = block.bytes := by
  rw [Local.written_eq fun s hs => ?_, Local.bytesOf_eq hblock]
  obtain ⟨k, hstore⟩ := (ht.kept r).mem_stores hs
  cases r <;> exact hstore.elim

/-- The data of a request is what it was filled with. -/
theorem Carries.filled (h : Matched client server) (ht : Tracked (execPlan o client server) net)
    (hk : Informed o client server net) {n : Nat} (hn : n < client.count) {t : Transfer}
    (hc : Carries client server net n t) :
    FilledWith (paramsOf client server (source client)) (net.loc (source client)) n t.data := by
  obtain ⟨block, hblock, -⟩ := hc.block
  refine ⟨block, hblock, ?_⟩
  rw [hc.original (source_untouched h ht hk (slotOf_lt h _ hn)), exec_written ht _ hblock,
    h.paramsOf_length]

/-- Request `i` of a host holds `data`. -/
def Holds (params : DccsParameters) (net : Net) (r : Role) (i : Nat) (data : List UInt8) : Prop :=
  ∃ p, bufferOf params (net.loc r) i = some p ∧ net.read r p params.length = some data

theorem holds_of_content (params : DccsParameters) {r : Role} {i : Nat} {block : Block}
    (hblock : (net.loc r).blocks[(slotOf params i).1]? = some block)
    (hlen : (slotOf params i).2 + params.length ≤ block.bytes.length) :
    Holds params net r i (slice (slotOf params i).2 params.length (net.content r (slotOf params i).1)) := by
  refine ⟨⟨some (slotOf params i).1, block.base + (slotOf params i).2⟩, ?_, ?_⟩
  · show ((net.loc r).blocks[(slotOf params i).1]?).map _ = _
    rw [hblock]
    rfl
  · simp only [Net.read, Option.bind_some, hblock]
    rw [if_pos ⟨Nat.le_add_right _ _, by omega⟩, Nat.add_sub_cancel_left]

/-- The host the data comes from still holds it. -/
theorem Carries.holds_source (h : Matched client server)
    (ht : Tracked (execPlan o client server) net) (hk : Informed o client server net) {n : Nat}
    (hn : n < client.count) {t : Transfer} (hc : Carries client server net n t) :
    Holds (paramsOf client server (source client)) net (source client) n t.data := by
  obtain ⟨block, hblock, hlen⟩ := hc.block
  have hholds := holds_of_content (paramsOf client server (source client)) hblock (by rwa [h.paramsOf_length])
  rw [Net.content_original (source_untouched h ht hk (slotOf_lt h _ hn)),
    exec_written ht _ hblock] at hholds
  obtain ⟨block', hblock', hdata⟩ := hc.filled h ht hk hn
  rw [hblock] at hblock'
  cases hblock'
  rw [hdata]
  exact hholds

/-- On the other host, whatever else was written to the block of a request was the same or went to
another request. -/
theorem Carries.undisturbed (h : Matched client server)
    (ht : Tracked (execPlan o client server) net) (hk : Informed o client server net) {n : Nat}
    (hn : n < client.count) {t : Transfer} (hc : Carries client server net n t) {u : Transfer}
    (hu : u ∈ net.transfers) (hdst : u.dst = t.dst) (hblock : u.block = t.block) :
    (u.off = t.off ∧ u.data = t.data) ∨ t.off + t.data.length ≤ u.off ∨
      u.off + u.data.length ≤ t.off := by
  have hrequest : u.block < (paramsOf client server u.dst).mrCount := by
    have hlt := slotOf_lt h (source client).peer hn
    rw [← hc.place] at hlt
    rwa [hdst, hblock, hc.dst]
  obtain ⟨k, hk', hdone⟩ := request_write h ht hu hrequest
  have hc' := data_transfer h ht hk hk' hdone
  by_cases hsame : k % client.count = n
  · rw [hsame] at hc'
    have hplace := hc'.place.trans hc.place.symm
    exact .inl ⟨(Prod.mk.inj hplace).2, (hc'.filled h ht hk hn).unique (hc.filled h ht hk hn)⟩
  · right
    have hapart := slotOf_apart (paramsOf client server (source client).peer) hsame
    rw [← hc.place, ← hc'.place, h.paramsOf_length] at hapart
    rw [hc.length, hc'.length]
    rcases hapart with hne | hle | hle
    · exact absurd hblock hne
    · exact .inr hle
    · exact .inl hle

theorem Carries.holds_peer (h : Matched client server) (ht : Tracked (execPlan o client server) net)
    (hk : Informed o client server net) {n : Nat} (hn : n < client.count) {t : Transfer}
    (hmem : t ∈ net.transfers) (hc : Carries client server net n t) :
    Holds (paramsOf client server (source client).peer) net (source client).peer n t.data := by
  have hcontent := Net.content_of_mem ht.holds.sound hmem fun u hu => hc.undisturbed h ht hk hn hu
  obtain ⟨block, hblock, hlen⟩ := (ht.holds.sound t hmem).inside
  have hb : t.block = (slotOf (paramsOf client server (source client).peer) n).1 :=
    congrArg Prod.fst hc.place
  have ho : t.off = (slotOf (paramsOf client server (source client).peer) n).2 :=
    congrArg Prod.snd hc.place
  rw [hc.dst, hb] at hblock hcontent
  rw [ho, hc.length] at hlen hcontent
  have hholds := holds_of_content (paramsOf client server (source client).peer) hblock
    (by rwa [h.paramsOf_length])
  rw [h.paramsOf_length, hcontent] at hholds
  exact hholds

/-- **When all data requests have been carried out**, either host holds in each request what it was
filled with on the host the data comes from. -/
theorem holds_of_done (h : Matched client server) (ht : Tracked (execPlan o client server) net)
    (hk : Informed o client server net) (hall : total client ≤ (net.done .client).length) {i : Nat}
    (hi : i < client.count) :
    ∃ data, FilledWith (paramsOf client server (source client)) (net.loc (source client)) i data ∧
      ∀ r, Holds (paramsOf client server r) net r i data := by
  -- the first round is enough
  have hlt : i < total client := Nat.lt_of_lt_of_le hi h.count_le_total
  obtain ⟨t, hdone⟩ : ∃ t, (net.done .client)[i]? = some t :=
    ⟨_, List.getElem?_eq_getElem (Nat.lt_of_lt_of_le hlt hall)⟩
  have hc := data_transfer h ht hk hlt hdone
  rw [Nat.mod_eq_of_lt hi] at hc
  refine ⟨t.data, hc.filled h ht hk hi, fun r => ?_⟩
  rcases Role.eq_or_eq_peer (source client) r with rfl | rfl
  · exact hc.holds_source h ht hk hi
  · exact hc.holds_peer h ht hk hi (Net.mem_done.1 (List.mem_of_getElem? hdone)).1

end transfers

end RdmaExec

end RdmaOpera
