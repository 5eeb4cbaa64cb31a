import RdmaOpera.AddressExchange
import RdmaOpera.RdmaMain
import RdmaOpera.Slots

/-!
# What the two processes of `rdma_exec` post, read and hash

A client sends `repeat * count` data requests, the `k`-th for `requests[k % count]`, and then the
end message. A server of verb `Send` posts as many receives, and any server one more for the end
message. For `Read` and `Write` the server has announced its requests before. At the end each
process reads its requests in order and hashes what it has read.
-/

namespace RdmaOpera

open Lib Prog

namespace RdmaExec

/-- The data requests of all rounds. -/
def total (params : DccsParameters) : Nat := params.repeat_ * params.count

/-- Those that are messages. -/
def dataMessages (params : DccsParameters) : Nat := if params.verb = .Send then total params else 0

/-- The block of the end message lies behind those of the requests, and the two of the exchange. -/
def endBlock (params : DccsParameters) : Nat :=
  if params.verb = .Send then params.mrCount else params.mrCount + 2

/-- How often a client has read before it reads its requests: twice in an exchange, but if the
server announces another count, `get_remote_mr_info` has given up after the first time. -/
def fetched (o : ByteOrder) (params : DccsParameters) (l : Local) : Nat :=
  if params.verb = .Send then 0
  else match l.loads[0]? with
    | some data => if o.nat data = params.count then 2 else 1
    | none => 0

/-- Request `n` of a client: with the remote side that the server has announced, unless that was
another count. -/
structure DataRequest (o : ByteOrder) (params : DccsParameters) (l : Local) (n : Nat)
    (request : DccsRequest) : Prop where
  slot : Slot params l n request
  fetched : params.verb ≠ .Send → ∃ data, l.loads[0]? = some data ∧
    (o.nat data = params.count → ∃ infos, l.loads[1]? = some infos ∧
      storeMrInfo o infos n request = request)

/-- The message that ends the connection. -/
structure EndMessage (params : DccsParameters) (l : Local) (wr : SendWr) : Prop where
  verb : wr.verb = .Send
  signaled : wr.signaled
  len : wr.len = syncEndMessageLength
  spot : l.spot wr.mr wr.addr wr.len = some (endBlock params, 0)
  bytes : l.bytesOf (endBlock params) = syncEndMessage

/-- The `k`-th request of a client's send queue. -/
inductive ClientSends (o : ByteOrder) (params : DccsParameters) (l : Local) (k : Nat) (wr : SendWr) :
    Prop where
  | data (request : DccsRequest) (signaled : Bool) (hk : k < total params)
      (hrequest : DataRequest o params l (k % params.count) request)
        (hwr : requestWr request signaled = some wr)
  | end_ (hk : k = total params) (hend : EndMessage params l wr)

/-- The `k`-th receive of a server. -/
inductive ServerReceives (params : DccsParameters) (l : Local) (k : Nat) (recv : RecvWr) :
    Prop where
  | data (request : DccsRequest) (hk : k < dataMessages params)
    (hslot : Slot params l (k % params.count) request)
      (hrecv : recv = ⟨request.buf.addr, request.length, request.mr⟩)
  | end_ (hk : k = dataMessages params) (hlen : recv.len = syncEndMessageLength)
      (hspot : l.spot recv.mr recv.addr recv.len = some (endBlock params, 0))

/-- The blocks of the exchange on the side of `requests`. -/
def execSide (params : DccsParameters) (requests : List DccsRequest) : Side :=
  ⟨requests, params.count, params.mrCount, params.mrCount, 0, 0⟩

/-- Regions that the peer may reach cover request blocks. -/
def RequestRegion (params : DccsParameters) (access : Access) (p : Ptr) : Prop :=
  access = .msgs ∨ access = accessOf params.verb ∧ ∃ b, p.block = some b ∧ b < params.mrCount

/-- Request `i` read for the digest, after `start` other reads, when nothing more is going to be
written to it. -/
structure ReadsRequest (params : DccsParameters) (start : Nat) (l : Local) (p : Ptr) (len i : Nat) :
    Prop where
  lt : i < params.count
  slot : ∃ request, Slot params l i request ∧ p = request.buf
  len : len = params.length
  loads : l.loads.length = start + i

/-- A client has polled a completion for the end message. -/
def ClientThrough (params : DccsParameters) (l : Local) : Prop :=
  l.sq.length = total params + 1 ∧ l.sWcs.length = (l.sq.filter (·.signaled)).length

/-- A server has polled a completion for the end message. -/
def ServerThrough (params : DccsParameters) (l : Local) : Prop :=
  dataMessages params < l.rWcs.length

/-- What is hashed is what has been read of the requests, in order. -/
structure Hashes (params : DccsParameters) (start : Nat) (l : Local) (chunks : List (List UInt8)) :
    Prop where
  length : chunks.length = params.count
  chunk : ∀ i < params.count, chunks[i]? = l.loads[start + i]?

/-- The work request of a request names its buffer, with the signaled bit of its turn. -/
structure SameFields (request : DccsRequest) (signaled : Bool) (wr : SendWr) : Prop where
  verb : wr.verb = request.verb
  addr : wr.addr = request.buf.addr
  len : wr.len = request.length
  mr : wr.mr = request.mr
  signaled : wr.signaled = signaled
  remote : request.verb ≠ .Send → wr.raddr = request.remoteAddr ∧ wr.rkey = request.remoteRkey

theorem requestWr_fields {request : DccsRequest} {signaled : Bool} {wr : SendWr}
    (h : requestWr request signaled = some wr) :
    SameFields request signaled wr := by
  unfold requestWr at h
  split at h
  · cases h
  · rename_i hv
    cases h
    exact ⟨hv.symm, rfl, rfl, rfl, rfl, fun hne => absurd hv hne⟩
  · cases h
    exact ⟨rfl, rfl, rfl, rfl, rfl, fun _ => ⟨rfl, rfl⟩⟩

section extends_
variable {o : ByteOrder} {params : DccsParameters} {l l' : Local}

theorem DataRequest.extends {n : Nat} {request : DccsRequest} (h : DataRequest o params l n request)
    (he : l.Extends l') :
    DataRequest o params l' n request := by
  refine ⟨h.slot.extends he, fun hverb => ?_⟩
  obtain ⟨data, hdata, hinfos⟩ := h.fetched hverb
  refine ⟨data, he.loaded hdata, fun hcount => ?_⟩
  obtain ⟨infos, hi, hsame⟩ := hinfos hcount
  exact ⟨infos, he.loaded hi, hsame⟩

theorem bytesOf_of_spot {mr : Option Mr} {addr len : Nat} {x : Nat × Nat}
    (hx : l.spot mr addr len = some x) (he : l.Extends l') :
    l'.bytesOf x.1 = l.bytesOf x.1 := by
  obtain ⟨m, r, -, -, hplace⟩ := Local.spot_some hx
  obtain ⟨block, -, hblock, -⟩ := Local.place_some hplace
  exact he.bytesOf hblock

theorem ClientSends.extends {k : Nat} {wr : SendWr} (h : ClientSends o params l k wr)
    (he : l.Extends l') :
    ClientSends o params l' k wr := by
  cases h with
  | data request signaled hk hrequest hwr =>
    exact .data request signaled hk (hrequest.extends he) hwr
  | end_ hk hend =>
    obtain ⟨hv, hs, hlen, hspot, hbytes⟩ := hend
    exact .end_ hk ⟨hv, hs, hlen, he.spot hspot, (bytesOf_of_spot hspot he).trans hbytes⟩

theorem ServerReceives.extends {k : Nat} {recv : RecvWr} (h : ServerReceives params l k recv)
    (he : l.Extends l') :
    ServerReceives params l' k recv := by
  cases h with
  | data request hk hslot hrecv => exact .data request hk (hslot.extends he) hrecv
  | end_ hk hlen hspot => exact .end_ hk hlen (he.spot hspot)

/-- The first read does not change. -/
theorem fetched_extends {data : List UInt8} (hdata : params.verb ≠ .Send → l.loads[0]? = some data)
    (he : l.Extends l') :
    fetched o params l' = fetched o params l := by
  unfold fetched
  split
  · rfl
  · rename_i hverb
    rw [hdata hverb, he.loaded (hdata hverb)]

theorem Hashes.extends {start : Nat} {chunks : List (List UInt8)} (h : Hashes params start l chunks)
    (he : l.Extends l') :
    Hashes params start l' chunks := by
  refine ⟨h.length, fun i hi => ?_⟩
  obtain ⟨chunk, hchunk⟩ : ∃ chunk, chunks[i]? = some chunk :=
    ⟨_, List.getElem?_eq_getElem (h.length.symm ▸ hi)⟩
  have hload := h.chunk i hi
  rw [hchunk] at hload ⊢
  exact (he.loaded hload.symm).symm

end extends_

def clientPlan (o : ByteOrder) (params : DccsParameters) : Plan where
  send := ClientSends o params
  recv l k recv := params.verb ≠ .Send ∧ Expects (execSide params []) l k recv
  region := RequestRegion params
  load l p len :=
    (params.verb ≠ .Send ∧ ∃ k < 2, l.loads.length = k ∧ Arrived l k p len) ∨
      ClientThrough params l ∧ ∃ i, ReadsRequest params (fetched o params l) l p len i
  digest l chunks := 0 < params.count ∧ Hashes params (fetched o params l) l chunks
  send_extends he h := h.extends he
  recv_extends he h := ⟨h.1, (exchangePlan o _).recv_extends he h.2⟩
  digest_extends := by
    rintro l l' chunks he ⟨hpos, h⟩
    have hfetched : fetched o params l' = fetched o params l := by
      cases hdata : l.loads[0]? with
      | some data => exact fetched_extends (fun _ => hdata) he
      | none =>
        -- something has been read
        have hnil : l.loads = [] := List.eq_nil_of_length_eq_zero (by simpa using hdata)
        have hload := h.chunk 0 hpos
        rw [hnil, List.getElem?_nil, List.getElem?_eq_none_iff, h.length] at hload
        omega
    exact ⟨hpos, hfetched ▸ h.extends he⟩
  msgs _ := .inl rfl

def serverPlan (o : ByteOrder) (params : DccsParameters) : Plan where
  send l k wr := params.verb ≠ .Send ∧ ∃ requests, Slots params l requests ∧
    Announces o (execSide params requests) l k wr
  recv := ServerReceives params
  region := RequestRegion params
  load l p len := ServerThrough params l ∧ ∃ i, ReadsRequest params 0 l p len i
  digest := Hashes params 0
  send_extends := by
    rintro l l' k wr he ⟨hverb, requests, hslots, ha⟩
    exact ⟨hverb, requests, hslots.extends he, (exchangePlan o _).send_extends he ha⟩
  recv_extends he h := h.extends he
  digest_extends he h := h.extends he
  msgs _ := .inl rfl

end RdmaExec

end RdmaOpera
