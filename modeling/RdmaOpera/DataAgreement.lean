import RdmaOpera.DataTransfers
import RdmaOpera.Progress

/-!
# End-to-end agreement of the data

In every run in which no call fails and every completion is good: once the server has received the
end message, each request holds the same data on both hosts, and this is what the host the data
comes from had filled it with; and the two hosts hash the same. What each process reads is part of
the joint invariant (`Agreed`): the client only ever acts on what the server has announced, and a
request is read for the digest when all data requests have been carried out.
-/

namespace RdmaOpera

open Lib Prog

namespace RdmaExec

section agreement
variable {o : ByteOrder} {client server : DccsParameters} {net : Net}

/-! ## When all data requests have been carried out -/

/-- The server's last receive has been filled by the end message, behind all data requests. -/
theorem done_of_serverThrough (h : Matched client server)
    (ht : Tracked (execPlan o client server) net) (hgood : net.AllGood)
    (hthrough : ServerThrough server (net.loc .server)) :
    total client ≤ (net.done .client).length ∧
      ∃ t, (net.msgs .client)[dataMessages server]? = some t ∧ t.data = syncEndMessage := by
  have hkept : (clientPlan o client).Kept (net.loc .client) := ht.kept .client
  have hwc := List.getElem?_eq_getElem hthrough
  have hsuccess :=
    (hgood .server).2 _ ((ht.holds.rpolled .server).subset (List.mem_of_getElem? hwc))
  obtain ⟨t, hmsg⟩ : ∃ t, (net.msgs .client)[dataMessages server]? = some t :=
    ht.holds.arrived hwc hsuccess
  obtain ⟨hmem, hsrc, hv⟩ := Net.mem_msgs.1 (List.mem_of_getElem? hmsg)
  -- the message stands behind the data requests in the send queue, and is the end message
  obtain ⟨hdone, hend⟩ : (net.done .client)[total client]? = some t ∧
    EndMessage client (net.loc .client) t.wr := by
    by_cases hverb : client.verb = .Send
    · rw [client_msgs ht hverb, h.dataMessages_eq, dataMessages, if_pos hverb] at hmsg
      have hplan : ClientSends o client (net.loc .client) (total client) t.wr :=
        hkept.sends _ t.wr (ht.holds.done_sent hmsg)
      cases hplan with
      | data _ _ hlt _ _ => exact absurd hlt (Nat.lt_irrefl _)
      | end_ _ hend => exact ⟨hmsg, hend⟩
    · obtain ⟨k, hk⟩ := List.getElem?_of_mem (Net.mem_done.2 ⟨hmem, hsrc⟩)
      have hplan : ClientSends o client (net.loc .client) k t.wr :=
        hkept.sends _ t.wr (ht.holds.done_sent hk)
      have hnot : ¬ k < total client := fun hlt => hverb ((hplan.verb_eq hlt).symm.trans hv)
      cases hplan with
      | data _ _ hlt _ _ => exact absurd hlt hnot
      | end_ he hend => exact ⟨he ▸ hk, hend⟩
  refine ⟨Nat.le_of_lt (List.getElem?_eq_some_iff.1 hdone).1, t, hmsg, ?_⟩
  refine ht.holds.payload hmsg hend.spot ?_ hend.bytes (reserved_endBlock h.clientAccepted hkept)
  rw [hend.len, length_syncEndMessage]

/-- A completion for the end message has been polled. -/
theorem done_of_clientThrough (ht : Tracked (execPlan o client server) net)
    (hscq : (net.host .client).scq = ((net.done .client).filter (·.wr.signaled)).map fun _ => .good)
    (hthrough : ClientThrough client (net.loc .client)) :
    total client ≤ (net.done .client).length := by
  obtain ⟨hsq, hpolled⟩ := hthrough
  by_contra hlt
  obtain ⟨wr, hwr⟩ : ∃ wr, (net.loc .client).sq[total client]? = some wr :=
    ⟨_, List.getElem?_eq_getElem (by omega)⟩
  have hplan : ClientSends o client (net.loc .client) (total client) wr :=
    (ht.kept .client).sends _ wr hwr
  have hsignaled : wr.signaled := by
    cases hplan with
    | data _ _ hk _ _ => exact absurd hk (Nat.lt_irrefl _)
    | end_ _ hend => exact hend.signaled
  have hfewer := signaled_lt (ht.holds.done_sq .client) (by rw [hsq]; exact hwr) hsignaled
    (by rw [List.length_map]; omega)
  have hle := (ht.holds.spolled .client).length_le
  rw [hscq, List.length_map, hpolled] at hle
  rw [List.filter_map, List.length_map] at hfewer
  exact absurd hle (Nat.not_le.2 hfewer)

/-! ## What is read -/

/-- Nothing is written to the blocks a server announces from. -/
theorem server_reserved (h : Matched client server) (ht : Tracked (execPlan o client server) net)
    (hverb : client.verb ≠ .Send) {k : Nat} (hk : k < 2) :
    (net.loc .server).Reserved (fun _ => False) (server.mrCount + 1 - k) where
  recvs j recv x hj hx hb := by
    have hsend : server.verb ≠ .Send := by rwa [h.verb]
    have hplan : ServerReceives server (net.loc .server) j recv := (ht.kept .server).recvs j recv hj
    cases hplan with
    | data _ hlt _ _ =>
      rw [dataMessages, if_neg hsend] at hlt
      omega
    | end_ _ _ hspot =>
      rw [hspot] at hx
      cases hx
      rw [endBlock, if_neg hsend] at hb
      omega
  reads wr hwr hv := by
    rw [server_sends (ht.kept .server) hwr] at hv
    cases hv
  grants := not_granted (ht.kept .server).regions (by omega)
  stores s hs := ((ht.kept .server).mem_stores hs).elim fun _ hf => hf.elim

/-- What a client reads in the exchange is what the server has announced. -/
theorem read_announced (h : Matched client server) (ht : Tracked (execPlan o client server) net)
    (hverb : client.verb ≠ .Send) {p : Ptr} {len k : Nat} {data : List UInt8}
    (hread : net.read .client p len = some data) (ha : Arrived (net.loc .client) k p len) :
    ∃ requests, Slots server (net.loc .server) requests ∧
      ExchangeData o requests client.count k data := by
  have ⟨b, bytes, recv, wc, hpb, _, _, hrq, hspot, hrlen, _⟩ := ha
  obtain ⟨-, hk, hlen, hspot', -⟩ := (ht.kept .client).recvs k recv hrq
  rw [hspot] at hspot'
  cases hspot'
  obtain ⟨wr, hsend, hpayload⟩ := ht.holds.read_message hread ha fun b' hb' => by
    rw [hpb] at hb'
    cases hb'
    -- only its receive writes to a block of the exchange
    show (net.loc .client).Reserved (· = k) (client.mrCount + 1 - k)
    exact client_reserved h.clientAccepted (ht.kept .client) (by omega) fun j _ _ hj => by omega
  have hmem := (List.mem_filter.1 (List.mem_of_getElem? hsend)).1
  have hall : sends (net.loc .server).sq = (net.loc .server).sq :=
    List.filter_eq_self.2 fun wr hwr => by simp [server_sends (ht.kept .server) hwr]
  have hsend : (sends (net.loc .server).sq)[k]? = some wr := hsend
  rw [hall] at hsend
  obtain ⟨-, requests, hslots, hannounced⟩ := (ht.kept .server).sends k wr hsend
  obtain ⟨infos, hinfos, hwrLen, hbytes⟩ := hannounced.payload
  have hsize := hannounced.size
  simp only [execSide, h.count] at hsize hinfos hwrLen hbytes
  refine ⟨requests, hslots, hsize, infos, hinfos, ?_⟩
  refine hpayload _ _ hannounced.spot hwrLen hbytes (server_reserved h ht hverb hk) ?_
  rw [length_exchangePayload hinfos hsize, ← hrlen, hlen]
  rfl

/-- How often each process has read before it reads its requests. -/
def readsBefore (client : DccsParameters) : Role → Nat
  | .client => if client.verb = .Send then 0 else 2
  | .server => 0

/-- The joint invariant. -/
structure Agreed (o : ByteOrder) (client server : DccsParameters) (net : Net) : Prop where
  good : net.AllGood
  scq : (net.host .client).scq = ((net.done .client).filter (·.wr.signaled)).map fun _ => .good
  informed : Informed o client server net
  reads : ∀ r i data, (net.loc r).loads[readsBefore client r + i]? = some data →
    FilledWith (paramsOf client server (source client)) (net.loc (source client)) i data

/-- A client that has read, has read the right count. -/
theorem fetched_eq (hk : Informed o client server net)
    (hdata : client.verb ≠ .Send → ∃ data, (net.loc .client).loads[0]? = some data) :
    fetched o client (net.loc .client) = readsBefore client .client := by
  rw [fetched, readsBefore]
  split
  · rfl
  · rename_i hverb
    obtain ⟨data, hdata⟩ := hdata hverb
    rw [hdata]
    exact if_pos (hk.count hverb data hdata)

/-- **What a process reads next.** -/
inductive ReadsNext (o : ByteOrder) (client server : DccsParameters) (net : Net) (r : Role)
    (data : List UInt8) : Prop where
  | announced (requests : List DccsRequest) (hr : r = .client) (hverb : client.verb ≠ .Send)
    (hk : (net.loc .client).loads.length < 2)
      (hslots : Slots server (net.loc .server) requests)
      (hdata : ExchangeData o requests client.count (net.loc .client).loads.length data)
  | request (i : Nat) (hi : (net.loc r).loads.length = readsBefore client r + i)
      (hdata : FilledWith (paramsOf client server (source client)) (net.loc (source client)) i data)

theorem filled_of_holds (h : Matched client server) (ht : Tracked (execPlan o client server) net)
    (hk : Informed o client server net) (hall : total client ≤ (net.done .client).length) {r : Role}
    {start len i : Nat} {p : Ptr} {data : List UInt8}
    (hreads : ReadsRequest (paramsOf client server r) start (net.loc r) p len i)
    (hread : net.read r p len = some data) :
    FilledWith (paramsOf client server (source client)) (net.loc (source client)) i data := by
  obtain ⟨hi, ⟨request, hslot, rfl⟩, rfl, -⟩ := hreads
  rw [h.paramsOf_count] at hi
  obtain ⟨data', hfilled, hholds⟩ := holds_of_done h ht hk hall hi
  obtain ⟨p, hp, hread'⟩ := hholds r
  rw [hslot.bufferOf] at hp
  cases hp
  rw [hread] at hread'
  cases hread'
  exact hfilled

/-- A read of the exchange. -/
def ExchangeRead (client : DccsParameters) (net : Net) (r : Role) (p : Ptr) (len : Nat) : Prop :=
  r = .client ∧ client.verb ≠ .Send ∧
    ∃ k < 2, (net.loc .client).loads.length = k ∧ Arrived (net.loc .client) k p len

/-- A read that belongs to the exchange, or is made when all data requests have been carried out. -/
theorem reads_next_of (h : Matched client server) (ht : Tracked (execPlan o client server) net)
    (hk : Informed o client server net) {r : Role} {p : Ptr} {len : Nat} {data : List UInt8}
    (hplan : (execPlan o client server r).load (net.loc r) p len)
    (hall : ExchangeRead client net r p len ∨ total client ≤ (net.done .client).length)
    (hread : net.read r p len = some data) : ReadsNext o client server net r data := by
  have hexchange : ExchangeRead client net r p len → ReadsNext o client server net r data := by
    rintro ⟨rfl, hverb, k, hlt, rfl, ha⟩
    obtain ⟨requests, hslots, hdata⟩ := read_announced h ht hverb hread ha
    exact .announced requests rfl hverb hlt hslots hdata
  rcases hall with he | hall
  · exact hexchange he
  cases r with
  | server =>
    obtain ⟨-, i, hreads⟩ := hplan
    exact .request i hreads.loads (filled_of_holds h ht hk (r := .server) hall hreads hread)
  | client =>
    rcases hplan with ⟨hverb, k, hlt, rfl, ha⟩ | ⟨hthrough, i, hreads⟩
    · exact hexchange ⟨rfl, hverb, _, hlt, rfl, ha⟩
    · refine .request i ?_ (filled_of_holds h ht hk (r := .client) hall hreads hread)
      rw [← fetched_eq hk]
      · exact hreads.loads
      · -- the first data request has been posted
        intro hverb
        have hpos : 0 < total client :=
          Nat.mul_pos h.clientAccepted.checked.2.2.2.2 h.clientAccepted.checked.1
        have hwr := List.getElem?_eq_getElem (show 0 < (net.loc .client).sq.length by rw [hthrough.1]; omega)
        have hplan : ClientSends o client (net.loc .client) 0 _ := (ht.kept .client).sends 0 _ hwr
        cases hplan with
        | data _ _ _ hrequest _ =>
          obtain ⟨data, hdata, -⟩ := hrequest.fetched hverb
          exact ⟨data, hdata⟩
        | end_ he _ => omega

theorem reads_next (h : Matched client server) (ht : Tracked (execPlan o client server) net)
    (hI : Agreed o client server net) {r : Role} {p : Ptr} {len : Nat} {data : List UInt8}
    (hplan : (execPlan o client server r).load (net.loc r) p len)
    (hread : net.read r p len = some data) : ReadsNext o client server net r data := by
  refine reads_next_of h ht hI.informed hplan ?_ hread
  cases r with
  | server => exact .inr (done_of_serverThrough h ht hI.good hplan.1).1
  | client =>
    rcases hplan with ⟨hverb, hexchange⟩ | ⟨hthrough, -⟩
    · exact .inl ⟨rfl, hverb, hexchange⟩
    · exact .inr (done_of_clientThrough ht hI.scq hthrough)

/-! ## Every step keeps the invariant -/

/-- While nothing more is read. -/
theorem Informed.later {net' : Net} (hk : Informed o client server net)
    (hlater : ∀ r, (net.loc r).Extends (net'.loc r))
    (hloads : ∀ r, (net'.loc r).loads = (net.loc r).loads) : Informed o client server net' where
  count hverb data hdata := hk.count hverb data (hloads .client ▸ hdata)
  infos hverb infos hinfos := by
    obtain ⟨requests, hslots, hlocal⟩ := hk.infos hverb infos (hloads .client ▸ hinfos)
    exact ⟨requests, hslots.extends (hlater .server), hlocal⟩

theorem Agreed.later {net' : Net} (hI : Agreed o client server net)
    (hlater : ∀ r, (net.loc r).Extends (net'.loc r))
    (hloads : ∀ r, (net'.loc r).loads = (net.loc r).loads) (hgood : net'.AllGood)
    (hscq : (net'.host .client).scq = ((net'.done .client).filter (·.wr.signaled)).map
      fun _ => .good) :
    Agreed o client server net' where
  good := hgood
  scq := hscq
  informed := hI.informed.later hlater hloads
  reads r i data hdata := (hI.reads r i data (hloads r ▸ hdata)).extends (hlater _)

/-- A read, old or new. -/
theorem loads_called {r q : Role} {p : Ptr} {len j : Nat} {data data' : List UInt8}
    (hj : ((net.called r (.load p len) data).loc q).loads[j]? = some data') :
    (net.loc q).loads[j]? = some data' ∨ q = r ∧ j = (net.loc r).loads.length ∧ data' = data := by
  rw [Net.called_loc] at hj
  split at hj
  · rename_i hq
    subst hq
    exact (getElem?_concat.1 hj).imp_right fun hnew => ⟨rfl, hnew⟩
  · exact .inl hj

theorem Informed.load (hk : Informed o client server net) {r : Role} {p : Ptr} {len : Nat}
    {data : List UInt8} (hnext : ReadsNext o client server net r data) :
    Informed o client server (net.called r (.load p len) data) := by
  have hlater := fun q => net.extends_called r q (.load p len) data
  constructor
  · intro hverb data' hdata'
    rcases loads_called hdata' with hold | ⟨rfl, hlen, rfl⟩
    · exact hk.count hverb data' hold
    · cases hnext with
      | announced requests _ _ _ _ hdata =>
        rw [← hlen] at hdata
        exact exchangeData_count hdata
      | request i hi _ =>
        rw [readsBefore, if_neg hverb] at hi
        omega
  · intro hverb infos hinfos
    rcases loads_called hinfos with hold | ⟨rfl, hlen, rfl⟩
    · obtain ⟨requests, hslots, hlocal⟩ := hk.infos hverb infos hold
      exact ⟨requests, hslots.extends (hlater .server), hlocal⟩
    · cases hnext with
      | announced requests _ _ _ hslots hdata =>
        rw [← hlen] at hdata
        obtain ⟨-, infos', hlocal, hpayload⟩ := hdata
        have hpayload : infos = infos' := hpayload.trans (if_neg Nat.one_ne_zero)
        exact ⟨requests, hslots.extends (hlater .server), hpayload ▸ hlocal⟩
      | request i hi _ =>
        rw [readsBefore, if_neg hverb] at hi
        omega

/-- A read for the digest, old or new. -/
theorem request_read {r q : Role} {p : Ptr} {len i : Nat} {data data' : List UInt8}
    (hnext : ReadsNext o client server net r data)
    (hdata' : ((net.called r (.load p len) data).loc q).loads[readsBefore client q + i]? = some data') :
    (net.loc q).loads[readsBefore client q + i]? = some data' ∨
      FilledWith (paramsOf client server (source client)) (net.loc (source client)) i data' := by
  rcases loads_called hdata' with hold | ⟨rfl, hlen, rfl⟩
  · exact .inl hold
  · right
    cases hnext with
    | announced _ hq hverb hk _ _ =>
      subst hq
      rw [readsBefore, if_neg hverb] at hlen
      omega
    | request i' hi hdata =>
      obtain rfl : i = i' := by omega
      exact hdata

theorem Agreed.load (hI : Agreed o client server net) {r : Role} {p : Ptr} {len : Nat}
    {data : List UInt8} (hnext : ReadsNext o client server net r data)
    (hgood : (net.called r (.load p len) data).AllGood) :
    Agreed o client server (net.called r (.load p len) data) := by
  have hlater := fun q => net.extends_called r q (.load p len) data
  refine ⟨hgood, ?_, hI.informed.load hnext, fun q i data' hdata' => ?_⟩
  · rw [(Net.called_host net r .client (.load p len) data).2.2.1]
    exact hI.scq
  · refine FilledWith.extends ?_ (hlater _)
    rcases request_read hnext hdata' with hold | hnew
    · exact hI.reads q i data' hold
    · exact hnew

/-- Only a read is recorded as one. -/
theorem loads_upd (l : Local) {op : VOp} (hop : ∀ p len, op ≠ .load p len) (a : op.Ans) :
    (l.upd op a).loads = l.loads := by
  cases op with
  | load p len => exact absurd rfl (hop p len)
  | malloc bytes => cases a <;> rfl
  | mallocRandom size => cases a <;> rfl
  | regMr access p len => cases a <;> rfl
  | postSend wr =>
    simp only [Local.upd]
    split <;> rfl
  | postRecv recv =>
    simp only [Local.upd]
    split <;> rfl
  | _ => rfl

theorem called_loads (net : Net) (r q : Role) {op : VOp} (hop : ∀ p len, op ≠ .load p len) (a : op.Ans) :
    ((net.called r op a).loc q).loads = (net.loc q).loads := by
  rw [Net.called_loc]
  split
  · rename_i hq
    subst hq
    exact loads_upd _ hop a
  · rfl

theorem Agreed.called (h : Matched client server) (ht : Tracked (execPlan o client server) net)
    (hI : Agreed o client server net) {hint : Net.Hint} {r : Role} {op : VOp} {a : op.Ans}
    (hok : (execPlan o client server r).allows (net.loc r) op) (ha : net.answer hint r op = some a)
    (hgood : (net.called r op a).AllGood) : Agreed o client server (net.called r op a) := by
  by_cases hop : ∃ p len, op = .load p len
  · obtain ⟨p, len, rfl⟩ := hop
    exact hI.load (reads_next h ht hI hok ha) hgood
  · refine hI.later (fun q => net.extends_called r q op a) (fun q => ?_) hgood ?_
    · exact called_loads net r q (fun p len he => hop ⟨p, len, he⟩) a
    · rw [(Net.called_host net r .client op a).2.2.1, Net.called_done]
      exact hI.scq

/-- An error leaves a completion behind. -/
theorem not_allGood_of_finish {r : Role} {host : Host} {wr : SendWr} {net' : Net}
    (h : net'.host r = host.finish wr false) : ¬ net'.AllGood := by
  intro hgood
  refine Wc.bad_not_success ((hgood r).1 .bad ?_)
  rw [h, Host.finish, if_pos (.inr Bool.false_ne_true)]
  exact List.mem_append_right _ (List.mem_singleton_self _)

theorem not_allGood_of_take {r : Role} {host : Host} {net' : Net}
    (h : net'.host r = host.take false) : ¬ net'.AllGood := by
  intro hgood
  refine Wc.bad_not_success ((hgood r).2 .bad ?_)
  rw [h, Host.take]
  exact List.mem_append_right _ (List.mem_singleton_self _)

/-- While all completions are good, they are those of the requests carried out, even on a connection
that has broken. -/
theorem scq_tick (ht : Tracked (execPlan o client server) net) (hI : Agreed o client server net)
    {t : Net.Tick} {net' : Net} (htick : Net.tick t net = some net') (hgood : net'.AllGood) :
    (net'.host .client).scq = ((net'.done .client).filter (·.wr.signaled)).map fun _ => .good := by
  have hholds := ht.holds.tick htick
  cases Net.tick_cases htick with
  | @exec s lost wr e _ _ _ =>
    cases e with
    | carry t =>
      cases lost with
      | false => exact (hholds.standing rfl .client).2.2
      | true => exact absurd hgood (not_allGood_of_finish (r := s) (pair_self _ _ _))
    | reject => exact absurd hgood (not_allGood_of_finish (r := s) (pair_self _ _ _))
    | rejectBoth => exact absurd hgood (not_allGood_of_finish (r := s) (pair_self _ _ _))
  | @flushSend r _ _ _ => exact absurd hgood (not_allGood_of_finish (r := r) (pair_self _ _ _))
  | @flushRecv r _ _ _ => exact absurd hgood (not_allGood_of_take (r := r) (pair_self _ _ _))
  | fault => exact hI.scq

theorem Agreed.tick (ht : Tracked (execPlan o client server) net) (hI : Agreed o client server net)
    {t : Net.Tick} {net' : Net} (htick : Net.tick t net = some net') (hgood : net'.AllGood) :
    Agreed o client server net' := by
  refine hI.later (fun r => ?_) (fun r => by rw [Net.tick_loc htick]) hgood (scq_tick ht hI htick hgood)
  rw [Net.tick_loc htick]
  exact .refl _

/-! ## The two programs -/

/-- Each request holds the same on both hosts: what it was filled with on the host the data comes
from. -/
def RequestsAgree (client server : DccsParameters) (net : Net) : Prop :=
  ∀ i < client.count, ∃ data, FilledWith (paramsOf client server (source client))
    (net.loc (source client)) i data ∧
    ∀ r, Holds (paramsOf client server r) net r i data

/-- Once the server has received the end message, the requests agree; and what the two hosts hash is
the same. -/
structure DataAgrees (client server : DccsParameters) (net : Net) : Prop where
  blocks : ServerThrough server (net.loc .server) →
    (∃ t, (net.msgs .client)[dataMessages server]? = some t ∧ t.data = syncEndMessage) ∧
      RequestsAgree client server net
  digests : ∀ chunks ∈ (net.loc .client).digests, ∀ chunks' ∈ (net.loc .server).digests,
    chunks = chunks'

/-- In every run of the two programs in which everything succeeds. -/
def DataAgreement (o : ByteOrder) (client server : DccsParameters) : Prop :=
  ∀ c, Reachable EverythingSucceeds (start fun r => run o (paramsOf client server r)) c →
    DataAgrees client server c.st

/-- What has been hashed is what the requests were filled with. -/
theorem filled_of_hashes {r : Role} (hI : Agreed o client server net) {params : DccsParameters}
    {chunks : List (List UInt8)} (hh : Hashes params (readsBefore client r) (net.loc r) chunks)
    {i : Nat} {chunk : List UInt8} (hchunk : chunks[i]? = some chunk) :
    FilledWith (paramsOf client server (source client)) (net.loc (source client)) i chunk := by
  refine hI.reads r i chunk ?_
  rw [← hchunk]
  exact (hh.chunk i (by rw [← hh.length]; exact (List.getElem?_eq_some_iff.1 hchunk).1)).symm

/-- A digest is of what has been read behind the exchange. -/
theorem hashes_reads (ht : Tracked (execPlan o client server) net)
    (hk : Informed o client server net) {r : Role} {chunks : List (List UInt8)}
    (hmem : chunks ∈ (net.loc r).digests) :
    Hashes (paramsOf client server r) (readsBefore client r) (net.loc r) chunks := by
  cases r with
  | server => exact (ht.kept .server).digests chunks hmem
  | client =>
    obtain ⟨hpos, hh⟩ : 0 < client.count ∧
      Hashes client (fetched o client (net.loc .client)) (net.loc .client) chunks :=
      (ht.kept .client).digests chunks hmem
    rwa [fetched_eq hk] at hh
    -- something has been read
    intro _
    have hload := hh.chunk 0 hpos
    rw [List.getElem?_eq_getElem (show 0 < chunks.length by rw [hh.length]; exact hpos)] at hload
    have hlt := (List.getElem?_eq_some_iff.1 hload.symm).1
    exact ⟨_, List.getElem?_eq_getElem (show 0 < (net.loc .client).loads.length by omega)⟩

theorem dataAgrees_of_agreed (h : Matched client server)
    (ht : Tracked (execPlan o client server) net) (hI : Agreed o client server net) :
    DataAgrees client server net := by
  constructor
  · intro hthrough
    obtain ⟨hall, hmarker⟩ := done_of_serverThrough h ht hI.good hthrough
    exact ⟨hmarker, fun i hi => holds_of_done h ht hI.informed hall hi⟩
  · intro chunks hc chunks' hc'
    have hh := hashes_reads ht hI.informed hc
    have hh' := hashes_reads ht hI.informed hc'
    have hlen : chunks.length = chunks'.length := by
      rw [hh.length, hh'.length, h.paramsOf_count, h.paramsOf_count]
    refine List.ext_getElem hlen fun i hi hi' => ?_
    exact (filled_of_hashes hI (r := .client) hh (List.getElem?_eq_getElem hi)).unique
      (filled_of_hashes hI (r := .server) hh' (List.getElem?_eq_getElem hi'))

theorem agreed_start : Agreed o client server {} where
  good r := by simp
  scq := rfl
  informed := ⟨fun _ _ hdata => by simp at hdata, fun _ _ hinfos => by simp at hinfos⟩
  reads r i data hdata := by simp at hdata

/-- **End-to-end agreement of the data.** -/
theorem dataAgreement (h : Matched client server) : DataAgreement o client server := by
  intro c hreach
  have hsafe : ∀ r,
    Safe (tracking .successful fun _ _ => True) ((execPlan o client server r).ok .successful)
      (run o (paramsOf client server r)) {} fun _ _ => True := by
    intro r
    cases r with
    | client => exact planned_client h.clientAccepted h.clientRole trivial id
    | server => exact planned_server h.serverAccepted h.serverRole trivial id
  obtain ⟨ht, hI, -⟩ :=
    Tracked.reachable (R := .successful) (I := Agreed o client server) (D := fun _ _ _ => True)
    (fun _ _ _ hl _ => hl.1) (fun _ _ _ _ _ _ _ _ _ _ => trivial)
      (fun net hint r op a _ _ _ hI ha => Net.answer_good hI.good ha)
    (fun net hint r op a hl ht hI hok ha => hI.called h ht hok.1 ha hl.2)
      (fun net t net' hl ht hI htick => hI.tick ht htick hl.2)
    agreed_start hsafe hreach
  exact dataAgrees_of_agreed h ht hI

end agreement

theorem matched_fourWrites : Matched fourWrites fourWritten :=
  ⟨accepted_fourWrites, accepted_fourWritten, rfl, rfl, rfl, rfl, rfl, rfl, by decide, by decide⟩

theorem dataAgreement_fourWrites : DataAgreement .little fourWrites fourWritten :=
  dataAgreement matched_fourWrites

/-- The two blocks of a host and their regions; the bytes count up. -/
def hostBlocks (r : Role) (first : Nat) : List (Label rc) :=
  (List.range 2).flatMap fun n =>
    [.call r { addr := 8192 * (n + 1), bytes := (List.range 16).map fun i => UInt8.ofNat (first + 16 * n + i) },
      .call r { rkey := UInt32.ofNat n }]

/-- A round of the client: four writes posted, carried out, and waited for. -/
def roundThrough : List (Label rc) :=
  calls .client 9 ++ (List.replicate 4 (carried .client)).flatten ++ calls .client 4

/-- The addresses, two rounds, the end message and a digest on both hosts. -/
def dataWritten : List (Label rc) :=
  calls .client 5 ++ calls .server 6 ++ hostBlocks .client 0 ++ hostBlocks .server 128 ++
    calls .client 5 ++ calls .server 5 ++ carried .server ++ calls .client 3 ++ calls .server 2 ++
    carried .server ++ calls .client 6 ++ calls .server 8 ++ roundThrough ++ roundThrough ++
    calls .client 3 ++ carried .client ++ calls .client 8 ++ calls .server 8

/-- What the client's requests are filled with. -/
def countedUp : List (List UInt8) :=
  (List.range 4).map fun n => (List.range 8).map fun i => UInt8.ofNat (8 * n + i)

example : ((start fun r => run .little (paramsOf fourWrites fourWritten r)).follow dataWritten).map
    (fun c => ((Net.loc c.st .client).digests, (Net.loc c.st .server).digests)) =
      some ([countedUp], [countedUp]) := by decide +kernel

end RdmaExec

end RdmaOpera
