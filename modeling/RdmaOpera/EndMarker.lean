import RdmaOpera.ExecRun
import RdmaOpera.Interleaving

/-!
# Soundness of the end marker

The end message travels on the same connection as the data messages of verb `Send`, and nothing
tells them apart: the server takes whatever fills its last receive for the end message. While no
call fails, it is the end message and all data messages have been received before it, unless the
client is told to send more data messages than the server expects, and these fit both the server's
buffers and the four bytes of its last receive.
-/

namespace RdmaOpera

open Lib Prog

namespace RdmaExec

/-- What the two processes post, read and hash. -/
def execPlan (o : ByteOrder) (client server : DccsParameters) : Role → Plan
  | .client => clientPlan o client
  | .server => serverPlan o server

/-! ## The client's end message -/

section client
variable {o : ByteOrder} {params : DccsParameters} {l : Local} {k : Nat} {wr : SendWr}

/-- Apart from the end message, a client posts requests of its verb. -/
theorem ClientSends.verb_eq (h : ClientSends o params l k wr) (hk : k < total params) :
    wr.verb = params.verb := by
  cases h with
  | data request signaled _ hrequest hwr =>
    exact (requestWr_fields hwr).verb.trans hrequest.slot.verb
  | end_ he _ => omega

/-- Only the end message is a message, if the verb is not `Send`. -/
theorem ClientSends.of_message (h : ClientSends o params l k wr) (hverb : params.verb ≠ .Send)
    (hv : wr.verb = .Send) :
    EndMessage params l wr := by
  cases h with
  | data request signaled _ hrequest hwr =>
    exact absurd (((requestWr_fields hwr).verb.trans hrequest.slot.verb).symm.trans hv) hverb
  | end_ _ hend => exact hend

/-- If the verb is `Send`, all requests are messages. -/
theorem sends_of_send (h : (clientPlan o params).Kept l) (hverb : params.verb = .Send) :
    sends l.sq = l.sq := by
  refine List.filter_eq_self.2 fun wr hwr => ?_
  obtain ⟨k, hk⟩ := List.getElem?_of_mem hwr
  have hsend : ClientSends o params l k wr := h.sends k wr hk
  cases hsend with
  | data request signaled _ hrequest hwr =>
    simp [(requestWr_fields hwr).verb.trans hrequest.slot.verb, hverb]
  | end_ _ hend => simp [hend.verb]

/-- No key granted to the peer leads behind the request blocks. -/
theorem not_granted (h : ∀ region ∈ l.regions, RequestRegion params region.access region.ptr)
    {b : Nat} (hb : params.mrCount ≤ b) :
    ∀ region ∈ l.regions, region.access = .write → region.ptr.block ≠ some b := by
  intro region hm ha hptr
  rcases h region hm with hmsgs | ⟨-, b', hptr', hlt⟩
  · rw [ha] at hmsgs
    cases hmsgs
  · rw [hptr'] at hptr
    have hb' := Option.some.inj hptr
    omega

/-- Behind its request blocks, only receives write to the memory of a client. -/
theorem client_reserved (haccepted : Accepted params) (h : (clientPlan o params).Kept l)
    {K : Nat → Prop} {b : Nat} (hb : params.mrCount ≤ b)
    (hrecvs : ∀ j, params.verb ≠ .Send → j < 2 → params.mrCount + 1 - j = b → K j) :
    l.Reserved K b where
  recvs j recv x hj hx hxb := by
    obtain ⟨hverb, hlt, -, hspot, -⟩ := h.recvs j recv hj
    rw [hspot] at hx
    cases hx
    exact hrecvs j hverb hlt hxb
  reads wr hwr hv x hx hxb := by
    obtain ⟨k, hk⟩ := List.getElem?_of_mem hwr
    have hsend : ClientSends o params l k wr := h.sends k wr hk
    cases hsend with
    | data request signaled _ hrequest hwr =>
      rw [(requestWr_fields hwr).mr] at hx
      have hblock := hrequest.slot.spot_block hx
      have hlt := haccepted.group_lt (Nat.mod_lt k haccepted.checked.1)
      omega
    | end_ _ hend =>
      rw [hend.verb] at hv
      cases hv
  grants := not_granted h.regions hb
  stores s hs := (h.mem_stores hs).elim fun _ hf => hf.elim

theorem endBlock_ge (params : DccsParameters) : params.mrCount ≤ endBlock params := by
  unfold endBlock
  split <;> omega

/-- Nothing is written to the block of the end message. -/
theorem reserved_endBlock (haccepted : Accepted params) (h : (clientPlan o params).Kept l) :
    l.Reserved (fun _ => False) (endBlock params) := by
  refine client_reserved haccepted h (endBlock_ge params) fun j hverb hlt hj => ?_
  rw [endBlock, if_neg hverb] at hj
  omega

end client

/-! ## The two processes -/

/-- A client, and a server up to the point where it leaves the rounds. -/
def execRun (o : ByteOrder) (client server : DccsParameters) : Role → VProg (Option Exit)
  | .client => do
    let _ ← run o client
    pure none
  | .server => do
    let exit ← untilEnd o server
    pure (some exit)

/-- The message in the server's last receive is the client's end message, and one receive for each
of the client's data messages has completed before. -/
structure EndMarked (client : DccsParameters) (net : Net) : Prop where
  posted : (net.loc .server).rq.length = dataMessages client + 1
  polled : (net.loc .server).rWcs.length = dataMessages client + 1
  marker : ∃ t, (net.msgs .client)[dataMessages client]? = some t ∧ t.data = syncEndMessage ∧
    t.recv = (net.loc .server).rq[dataMessages client]?

/-- In every run, whenever the server's closing `recv_message` has succeeded. -/
def EndMarkerSound (allow : Label rc → Net → Prop) (o : ByteOrder) (client server : DccsParameters) :
    Prop :=
  ∀ c, Reachable allow (start (execRun o client server)) c →
    ∀ requests rv, c.prog .server = .ret (some (.ended requests rv)) → EndMarked client c.st

section sound
variable {o : ByteOrder} {client server : DccsParameters} {net : Net}

/-- A data message lies in a receive that is long enough for it. -/
theorem data_fits (ht : Tracked (execPlan o client server) net) (hverb : client.verb = .Send)
    {k : Nat} (hk : k < total client) {t : Transfer} (hmsg : (net.msgs .client)[k]? = some t) :
    ∃ recv, (net.loc .server).rq[k]? = some recv ∧ client.length ≤ recv.len := by
  have hsend := ht.holds.msgs_sends hmsg
  rw [sends_of_send (ht.kept .client) hverb] at hsend
  have hplan : ClientSends o client (net.loc .client) k t.wr := (ht.kept .client).sends k t.wr hsend
  obtain ⟨hmem, hsrc, hv⟩ := Net.mem_msgs.1 (List.mem_of_getElem? hmsg)
  obtain ⟨-, -, recv, hr, hle, -⟩ := (ht.holds.sound t hmem).send hv
  obtain ⟨recv', hr', hrq⟩ := ht.holds.msgs_recv hmsg
  rw [hr] at hr'
  cases hr'
  refine ⟨recv, hrq, ?_⟩
  cases hplan with
  | data request signaled _ hrequest hwr =>
    rwa [(requestWr_fields hwr).len, hrequest.slot.length] at hle
  | end_ he _ => omega

/-- The client's data messages are no more than the server expects, or do not all fit where they
would land. -/
def DataKeptApart (client server : DccsParameters) : Prop :=
  client.verb ≠ .Send ∨ total client ≤ total server ∨ syncEndMessageLength < client.length ∨
    server.length < client.length

/-- A data message in the server's last receive: it fits, and so did the first one. -/
theorem not_data_of_closed (hs : Accepted server) (ht : Tracked (execPlan o client server) net)
    (hverb : client.verb = .Send) (hsame : server.verb = client.verb)
    (hapart : DataKeptApart client server) (hlt : dataMessages server < total client) {t : Transfer}
    (hmsg : (net.msgs .client)[dataMessages server]? = some t) : False := by
  have hdata : dataMessages server = total server := if_pos (hsame.trans hverb)
  have hpos : 0 < total server := Nat.mul_pos hs.checked.2.2.2.2 hs.checked.1
  have hfirst : 0 < (net.msgs .client).length := by
    have := (List.getElem?_eq_some_iff.1 hmsg).1
    omega
  obtain ⟨last, hlast, hlastLen⟩ := data_fits ht hverb hlt hmsg
  obtain ⟨first, hfirst, hfirstLen⟩ :=
    data_fits ht hverb (by omega) (List.getElem?_eq_getElem hfirst)
  have hlastPlan : ServerReceives server (net.loc .server) (dataMessages server) last :=
    (ht.kept .server).recvs _ _ hlast
  have hfirstPlan : ServerReceives server (net.loc .server) 0 first :=
    (ht.kept .server).recvs _ _ hfirst
  have hend : last.len = syncEndMessageLength := by
    cases hlastPlan with
    | data request hk _ _ => omega
    | end_ _ hlen _ => exact hlen
  have hbuffer : first.len = server.length := by
    cases hfirstPlan with
    | data request _ hslot hrecv =>
      rw [hrecv]
      exact hslot.length
    | end_ hk _ _ => omega
  rcases hapart with hne | hle | hlt' | hlt'
  · exact hne hverb
  · omega
  · omega
  · omega

/-- **What the server's last receive holds.** -/
theorem endMarked_of_closed (hc : Accepted client) (hs : Accepted server)
    (hsame : server.verb = client.verb) (hapart : DataKeptApart client server)
    (ht : Tracked (execPlan o client server) net) {requests : List DccsRequest}
    (hclosed : Closed server requests (net.loc .server)) : EndMarked client net := by
  obtain ⟨wc, hwc, hgood⟩ := hclosed.good
  obtain ⟨t, hmsg⟩ : ∃ t, (net.msgs .client)[dataMessages server]? = some t :=
    ht.holds.arrived hwc hgood
  have hkept : (clientPlan o client).Kept (net.loc .client) := ht.kept .client
  have hsend := ht.holds.msgs_sends hmsg
  obtain ⟨hk, hend⟩ : dataMessages server = dataMessages client ∧
    EndMessage client (net.loc .client) t.wr := by
    by_cases hverb : client.verb = .Send
    · rw [sends_of_send hkept hverb] at hsend
      have hplan : ClientSends o client (net.loc .client) (dataMessages server) t.wr :=
        hkept.sends _ t.wr hsend
      cases hplan with
      | data _ _ hlt _ _ => exact (not_data_of_closed hs ht hverb hsame hapart hlt hmsg).elim
      | end_ hk hend => exact ⟨hk.trans (if_pos hverb).symm, hend⟩
    · obtain ⟨hmem, hv⟩ := List.mem_filter.1 (List.mem_of_getElem? hsend)
      obtain ⟨k, hk⟩ := List.getElem?_of_mem hmem
      have hplan : ClientSends o client (net.loc .client) k t.wr := hkept.sends k t.wr hk
      refine ⟨?_, hplan.of_message hverb (of_decide_eq_true hv)⟩
      rw [dataMessages, if_neg (hsame ▸ hverb), dataMessages, if_neg hverb]
  obtain ⟨recv, hr, hrq⟩ := ht.holds.msgs_recv hmsg
  refine ⟨hk ▸ hclosed.posted, hk ▸ hclosed.polled, t, hk ▸ hmsg, ?_, ?_⟩
  · refine ht.holds.payload hmsg hend.spot ?_ hend.bytes (reserved_endBlock hc hkept)
    rw [hend.len, length_syncEndMessage]
  · rw [hr, ← hk]
    exact hrq.symm

/-- **The end marker is sound** in every run in which no call fails, if the client's data messages
are kept apart from it. -/
theorem endMarkerSound_of_dataKeptApart (hc : Accepted client) (hs : Accepted server)
    (hclient : roleOf client = .client) (hserver : roleOf server = .server)
    (hsame : server.verb = client.verb) (hapart : DataKeptApart client server) :
    EndMarkerSound NoCallFails o client server := by
  intro c hreach requests rv hret
  let Q : Role → Option Exit → Local → Prop := fun r a l =>
    r = .server → ∀ requests rv, a = some (.ended requests rv) → Closed server requests l
  have hsafe : ∀ r,
    Safe (tracking .unfailing fun _ _ => True) ((execPlan o client server r).ok .unfailing)
      (execRun o client server r) {} (Q r) := by
    intro r
    cases r with
    | client =>
      exact Safe.bind (planned_client hc hclient trivial id) fun _ _ _ hne => by cases hne
    | server =>
      refine Safe.bind (planned_server_untilEnd hs hserver trivial id)
        fun exit l hclosed _ requests rv he => ?_
      exact hclosed requests rv (Option.some.inj he)
  obtain ⟨ht, -, hend⟩ :=
    Tracked.reachable (R := .unfailing) (I := fun _ => True) (D := fun _ _ _ => True)
    (fun _ _ _ hl _ => hl) (fun _ _ _ _ _ _ _ _ _ _ => trivial) (fun _ _ _ _ _ hf => hf.elim)
    (fun _ _ _ _ _ _ _ _ _ _ => trivial) (fun _ _ _ _ _ _ _ => trivial) trivial hsafe hreach
  have hclosed := hend .server
  rw [hret] at hclosed
  exact endMarked_of_closed hc hs hsame hapart ht (hclosed rfl requests rv rfl)

end sound

theorem endMarkerSound_fourWrites : EndMarkerSound NoCallFails .little fourWrites fourWritten :=
  endMarkerSound_of_dataKeptApart accepted_fourWrites accepted_fourWritten rfl rfl rfl
    (.inl (by decide))

/-- A server for one message of one byte. -/
def oneReceive : DccsParameters := { oneSend with server := none }

/-- A client that sends two messages of one byte. -/
def twoSends : DccsParameters := { oneSend with count := 2 }

/-- The two processes up to the point where the client's second message has filled the server's last
receive. -/
def takenForEnd : List (Label rc) :=
  calls .server 6 ++ [.call .server { bytes := [0] }] ++ calls .server 2 ++
    calls .client 5 ++ [.call .client { bytes := [1, 2] }] ++ calls .client 4 ++
      carried .client ++ calls .client 4 ++
    calls .server 1 ++ [.call .server { addr := 8192 }] ++ calls .server 2 ++ carried .client ++
      calls .server 3

/-- The receives a server has posted when it leaves the rounds. -/
def receivesAtEnd (c : Conf rc (Option Exit)) : Option Nat := match (c.prog .server).value with
  | some (some (.ended _ _)) => some (Net.loc c.st .server).rq.length
  | _ => none

/-- The server leaves the rounds with two receives: the client's second data message has been taken
for the end message. -/
theorem endMarkerSound_counterexample :
    ¬ EndMarkerSound NothingFails .little twoSends oneReceive := by
  intro h
  have hrun : ((start (execRun .little twoSends oneReceive)).follow takenForEnd).bind
    receivesAtEnd = some 2 := by decide +kernel
  have hplain : ∀ l ∈ takenForEnd, plain l := by decide
  obtain ⟨c, hc, hret⟩ :=
    Reachable.of_follow (fun l hl net => nothingFails_of_plain (hplain l hl) net) hrun
  unfold receivesAtEnd at hret
  split at hret
  · rename_i requests rv hv
    have hposted : (Net.loc c.st .server).rq.length = 2 + 1 :=
      (h c hc requests rv (eq_ret_of_value hv)).posted
    have htwo : (Net.loc c.st .server).rq.length = 2 := Option.some.inj hret
    omega
  · cases hret

end RdmaExec

end RdmaOpera
