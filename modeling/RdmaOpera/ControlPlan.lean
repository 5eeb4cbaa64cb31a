import RdmaOpera.ControlMain
import RdmaOpera.Handshake
import RdmaOpera.Steady

/-!
# What the two processes of `control_exec` post and read

Each host has two sets of requests, `requests_in` and behind them `requests_out`, and first puts a
packet into each of the latter. The hosts announce
`requests_in` to each other. Then the server writes each of its `requests_out` to the client's
request of the same number, once in each round, and sends the end message. Two reads belong to the
exchange; the next ones are of the requests each host hashes first.
-/

namespace RdmaOpera

open Lib Prog

namespace ControlExec

/-- The writes of all rounds. -/
def total (params : DccsParameters) : Nat := params.repeat_ * params.count

/-- Request `i` of `requests_out`, as the second `allocate_buffer` fills it in. -/
structure OutSlot (params : DccsParameters) (l : Local) (i : Nat) (request : DccsRequest) : Prop where
  length : request.length = params.length
  laid : ∃ bufBase, Group params l (params.mrCount + i / countPerMr params) bufBase request.mr ∧
    request.buf = bufBase.add (i % countPerMr params * params.length)

/-- Its block and offset. -/
def outSlotOf (params : DccsParameters) (i : Nat) : Nat × Nat :=
  (params.mrCount + i / countPerMr params, i % countPerMr params * params.length)

/-- The blocks of the exchange lie behind those of the requests; the client announces first. -/
def controlSide (params : DccsParameters) (r : Role) (requests : List DccsRequest) : Side := match r with
  | .client => ⟨requests, params.count, 2 * params.mrCount, 2 * params.mrCount + 2, 0, 2⟩
  | .server => ⟨requests, params.count, 2 * params.mrCount + 2, 2 * params.mrCount, 2, 0⟩

/-- The block of the end message; a server has allocated its two arrays before. -/
def endBlock (params : DccsParameters) : Role → Nat
  | .client => 2 * params.mrCount + 4
  | .server => 2 * params.mrCount + 6

/-- Request `i` of `requests_out` behind the exchange. -/
structure OutRequest (o : ByteOrder) (params : DccsParameters) (l : Local) (i : Nat)
    (request : DccsRequest) : Prop where
  slot : OutSlot params l i request
  fetched : ∃ infos, l.loads[1]? = some infos ∧ storeMrInfo o infos i request = request

/-- The write of a request. -/
def writeWr (request : DccsRequest) : SendWr :=
  { verb := .Write, addr := request.buf.addr, len := request.length, mr := request.mr,
    raddr := request.remoteAddr, rkey := request.remoteRkey, signaled := true }

/-- The message that ends the connection. -/
structure EndMessage (params : DccsParameters) (l : Local) (wr : SendWr) : Prop where
  verb : wr.verb = .Send
  signaled : wr.signaled
  len : wr.len = syncEndMessageLength
  spot : l.spot wr.mr wr.addr wr.len = some (endBlock params .server, 0)

/-- The `k`-th request of a send queue. -/
inductive Sends (o : ByteOrder) (params : DccsParameters) (r : Role) (l : Local) (k : Nat) (wr : SendWr) :
    Prop where
  | announce (requests : List DccsRequest) (hslots : Slots params l requests)
      (h : Announces o (controlSide params r requests) l k wr)
  | write (request : DccsRequest) (hr : r = .server) (hle : 2 ≤ k) (hlt : k < total params + 2)
      (hrequest : OutRequest o params l ((k - 2) % params.count) request) (hwr : wr = writeWr request)
  | end_ (hr : r = .server) (hk : k = total params + 2) (hend : EndMessage params l wr)

/-- The `k`-th receive. -/
inductive Receives (params : DccsParameters) (r : Role) (l : Local) (k : Nat) (recv : RecvWr) : Prop where
  | address (h : Expects (controlSide params r []) l k recv)
  | end_ (hr : r = .client) (hk : k = 2) (hlen : recv.len = syncEndMessageLength)
      (hspot : l.spot recv.mr recv.addr recv.len = some (endBlock params .client, 0))

/-- What each host hashes first: a server what it has sent, a client what it has received. -/
def Hashed (params : DccsParameters) (l : Local) (i : Nat) (request : DccsRequest) : Role → Prop
  | .client => Slot params l i request
  | .server => OutSlot params l i request

/-- A read for a digest, when a client has received the end message. -/
structure DigestRead (params : DccsParameters) (r : Role) (l : Local) (p : Ptr) (len : Nat) : Prop where
  loads : 2 ≤ l.loads.length
  through : r = .client → 3 ≤ l.rWcs.length
  first : ∀ i < params.count, l.loads.length = 2 + i →
    len = params.length ∧ ∃ request, Hashed params l i request r ∧ p = request.buf

/-- The two parts of a packet, and where in it they are. -/
def packetParts (o : ByteOrder) (params : DccsParameters) : List (Nat × List UInt8) :=
  [(0, magicBytes o), (4, indexBytes o params)]

/-- The `k`-th write of a program to its own blocks. -/
structure Stores (o : ByteOrder) (params : DccsParameters) (l : Local) (k : Nat) (s : Ptr × List UInt8) :
    Prop where
  lt : k / 2 < params.count
  part : ∃ request part, OutSlot params l (k / 2) request ∧
    (packetParts o params)[k % 2]? = some part ∧ s = (request.buf.add part.1, part.2)

/-- Regions that the peer may reach cover request blocks. -/
def RequestRegion (params : DccsParameters) (access : Access) (p : Ptr) : Prop :=
  access = .msgs ∨ access = accessOf params.verb ∧ ∃ b, p.block = some b ∧ b < 2 * params.mrCount

section slots
variable {o : ByteOrder} {params : DccsParameters} {r : Role} {l l' : Local} {i k : Nat}
  {request : DccsRequest}

theorem OutSlot.extends (h : OutSlot params l i request) (he : l.Extends l') :
    OutSlot params l' i request := by
  obtain ⟨hl, bufBase, hg, hb⟩ := h
  exact ⟨hl, bufBase, hg.extends he, hb⟩

theorem OutRequest.extends (h : OutRequest o params l i request) (he : l.Extends l') :
    OutRequest o params l' i request := by
  obtain ⟨infos, hinfos, hsame⟩ := h.fetched
  exact ⟨h.slot.extends he, infos, he.loaded hinfos, hsame⟩

/-- If no size wraps, the request names its slot. -/
theorem OutSlot.spot (h : OutSlot params l i request) (hpos : 0 < countPerMr params)
    (hsize : countPerMr params * params.length < 2 ^ 64) :
    l.spot request.mr request.buf.addr params.length = some (outSlotOf params i) := by
  obtain ⟨-, bufBase, hg, hbuf⟩ := h
  rw [hbuf]
  exact hg.spot hpos hsize i

/-- Where a part of the request is in its block. -/
theorem OutSlot.offset (h : OutSlot params l i request) (hpos : 0 < countPerMr params)
    (hsize : countPerMr params * params.length < 2 ^ 64) (off len : Nat)
    (hle : off + len ≤ params.length) :
    request.buf.block = some (outSlotOf params i).1 ∧
      l.offset (outSlotOf params i).1 (request.buf.addr + off) len =
        some ((outSlotOf params i).2 + off) := by
  obtain ⟨-, bufBase, hg, hbuf⟩ := h
  obtain ⟨bytes, hblock, hlen⟩ := hg.block
  have hfit : bufferLength params = countPerMr params * params.length := sizeT_of_lt hsize
  have hend := Slot.offset_le params i hpos
  rw [hbuf, Ptr.add_addr, Nat.add_assoc]
  exact ⟨hg.ptr, Local.offset_of_covers hblock (by simp only; omega)⟩

theorem OutSlot.covers (h : OutSlot params l i request) (hpos : 0 < countPerMr params)
    (hsize : countPerMr params * params.length < 2 ^ 64) (off len : Nat)
    (hle : off + len ≤ params.length) : l.Covers (request.buf.add off) len := by
  obtain ⟨hblock, hoffset⟩ := h.offset hpos hsize off len hle
  exact ⟨_, hblock, by rw [Ptr.add_addr, hoffset]; rfl⟩

/-- Its region is one of the second half. -/
theorem OutSlot.handle (h : OutSlot params l i request) :
    ∃ mr, request.mr = some mr ∧ mr.handle = params.mrCount + i / countPerMr params := by
  obtain ⟨-, bufBase, hg, -⟩ := h
  obtain ⟨mr, hmr, hhandle, -⟩ := hg.region
  exact ⟨mr, hmr, hhandle⟩

theorem Sends.signaled {wr : SendWr} (h : Sends o params r l k wr) : wr.signaled := by
  cases h with
  | announce _ _ ha => exact ha.signaled
  | write request _ _ _ _ hwr => rw [hwr]; rfl
  | end_ _ _ hend => exact hend.signaled

/-- What a request that is no data write does. -/
theorem Sends.verb {wr : SendWr} (h : Sends o params r l k wr) :
    wr.verb = .Send ∨ wr.verb = .Write ∧ r = .server ∧ 2 ≤ k ∧ k < total params + 2 := by
  cases h with
  | announce _ _ ha => exact .inl ha.verb
  | write request hr hle hlt _ hwr => exact .inr ⟨by rw [hwr]; rfl, hr, hle, hlt⟩
  | end_ _ _ hend => exact .inl hend.verb

end slots

def controlPlan (o : ByteOrder) (params : DccsParameters) (r : Role) : Plan where
  send := Sends o params r
  recv := Receives params r
  region := RequestRegion params
  load l p len := (∃ k < 2, l.loads.length = k ∧ Arrived l k p len) ∨ DigestRead params r l p len
  store := Stores o params
  send_extends := by
    rintro l l' k wr he h
    cases h with
    | announce requests hslots ha =>
      exact .announce requests (hslots.extends he) ((exchangePlan o _).send_extends he ha)
    | write request hr hle hlt hrequest hwr =>
      exact .write request hr hle hlt (hrequest.extends he) hwr
    | end_ hr hk hend =>
      exact .end_ hr hk ⟨hend.verb, hend.signaled, hend.len, he.spot hend.spot⟩
  recv_extends := by
    rintro l l' k recv he h
    cases h with
    | address hx => exact .address ((exchangePlan o _).recv_extends he hx)
    | end_ hr hk hlen hspot => exact .end_ hr hk hlen (he.spot hspot)
  store_extends := by
    rintro l l' k s he ⟨hlt, request, part, hrequest, hpart⟩
    exact ⟨hlt, request, part, hrequest.extends he, hpart⟩
  msgs _ := .inl rfl

/-! ## The packets in memory -/

/-- The magic number and the index come first, in network byte order. -/
def BeginsWithPacket (params : DccsParameters) (data : List UInt8) : Prop :=
  data.take packetLength =
    ByteOrder.big.bytes 4 magic.toNat ++ ByteOrder.big.bytes 2 params.index.toNat

section packets
variable {o : ByteOrder} {params : DccsParameters} {r : Role} {l : Local} {i j : Nat}
  {part part' : Nat × List UInt8}

/-- A packet has six bytes. -/
theorem packetParts_within (h : part ∈ packetParts o params) :
    part.1 + part.2.length ≤ packetLength := by
  simp only [packetParts, List.mem_cons, List.not_mem_nil, or_false] at h
  rcases h with rfl | rfl <;> simp [magicBytes, indexBytes, packetLength]

/-- Its parts do not meet. -/
theorem packetParts_apart (h : part ∈ packetParts o params) (h' : part' ∈ packetParts o params) :
    part' = part ∨ part.1 + part.2.length ≤ part'.1 ∨ part'.1 + part'.2.length ≤ part.1 := by
  simp only [packetParts, List.mem_cons, List.not_mem_nil, or_false] at h h'
  rcases h with rfl | rfl <;> rcases h' with rfl | rfl
  · exact .inl rfl
  · exact .inr (.inl (by simp [magicBytes]))
  · exact .inr (.inr (by simp [magicBytes]))
  · exact .inl rfl

/-- Whatever a process has written to its blocks is part of a packet. -/
theorem mem_storesTo (h : Accepted params) (hsize : countPerMr params * params.length < 2 ^ 64)
    (hlong : packetLength ≤ params.length) (hk : (controlPlan o params r).Kept l) {b : Nat}
    {p : Nat × List UInt8} (hp : p ∈ l.storesTo b) :
    ∃ i, (outSlotOf params i).1 = b ∧
      ∃ part ∈ packetParts o params, p = ((outSlotOf params i).2 + part.1, part.2) := by
  obtain ⟨s, hs, hb, hoff, he⟩ := Local.mem_storesTo_iff.1 hp
  obtain ⟨k, -, request, part, hrequest, hpart, rfl⟩ := hk.mem_stores hs
  have hmem := List.mem_of_getElem? hpart
  obtain ⟨hblock, hoffset⟩ := hrequest.offset h.countPerMr_pos hsize part.1 part.2.length
    ((packetParts_within hmem).trans hlong)
  obtain rfl := Option.some.inj (hblock.symm.trans hb)
  exact ⟨k / 2, rfl, part, hmem, Prod.ext (Option.some.inj (hoff.symm.trans hoffset)) he.symm⟩

/-- When all packets have been written, each of them is there. -/
theorem packetParts_stored (h : Accepted params) (hsize : countPerMr params * params.length < 2 ^ 64)
    (hlong : packetLength ≤ params.length) (hk : (controlPlan o params r).Kept l)
    (hall : 2 * params.count ≤ l.stores.length) (hi : i < params.count)
    (hpart : part ∈ packetParts o params) :
    ((outSlotOf params i).2 + part.1, part.2) ∈ l.storesTo (outSlotOf params i).1 := by
  obtain ⟨j, hj⟩ := List.getElem?_of_mem hpart
  have hlt : j < 2 := (List.getElem?_eq_some_iff.1 hj).1
  have hget := List.getElem?_eq_getElem (show 2 * i + j < l.stores.length by omega)
  obtain ⟨-, request, part', hrequest, hpart', hs⟩ := hk.stores _ _ hget
  rw [show (2 * i + j) % 2 = j by omega, hj] at hpart'
  cases hpart'
  rw [show (2 * i + j) / 2 = i by omega] at hrequest
  obtain ⟨hblock, hoffset⟩ := hrequest.offset h.countPerMr_pos hsize part.1 part.2.length
    ((packetParts_within hpart).trans hlong)
  exact Local.mem_storesTo_iff.2 ⟨_, hs ▸ List.mem_of_getElem? hget, hblock, hoffset, rfl⟩

/-- **The packets in memory**: a request of `requests_out` begins with its packet. -/
theorem beginsWithPacket (h : Accepted params) (hsize : countPerMr params * params.length < 2 ^ 64)
    (hlong : packetLength ≤ params.length) (hk : (controlPlan o params r).Kept l)
    (hall : 2 * params.count ≤ l.stores.length) (hi : i < params.count) :
    BeginsWithPacket params
      (slice (outSlotOf params i).2 params.length (l.written (outSlotOf params i).1)) := by
  have hslice : ∀ part ∈ packetParts o params,
      slice ((outSlotOf params i).2 + part.1) part.2.length (l.written (outSlotOf params i).1) =
        part.2 := by
    intro part hpart
    refine slice_patched_of_mem (p := ((outSlotOf params i).2 + part.1, part.2))
      (l.inside_storesTo _) (packetParts_stored h hsize hlong hk hall hi hpart) fun q hq => ?_
    obtain ⟨j, hblock, part', hpart', rfl⟩ := mem_storesTo h hsize hlong hk hq
    by_cases hij : i = j
    · subst hij
      rcases packetParts_apart hpart hpart' with rfl | hapart
      · exact .inl rfl
      · right
        simp only
        omega
    · right
      have hapart := slotOf_apart params hij
      have hwithin := packetParts_within hpart
      have hwithin' := packetParts_within hpart'
      simp only [slotOf, outSlotOf] at hapart hblock ⊢
      omega
  have hmagic := hslice _ List.mem_cons_self
  have hindex := hslice _ (List.mem_cons_of_mem _ List.mem_cons_self)
  simp only [magicBytes, indexBytes, ByteOrder.length_bytes] at hmagic hindex
  rw [BeginsWithPacket, slice, List.take_take, Nat.min_eq_left hlong]
  show slice _ (4 + 2) _ = _
  rw [slice_add, hindex, ← bytes_htonl o, ← bytes_htons o]
  exact congrArg (· ++ _) hmagic

end packets

/-- What each call has to meet: a client's regions stay registered until the end message is there. -/
def Fit (o : ByteOrder) (params : DccsParameters) (r : Role) (l : Local) (op : VOp) : Prop :=
  (controlPlan o params r).allows l op ∧ l.Served op ∧ l.Due op ∧
    ∀ mr, op = .deregMr mr → r = .client → mr.handle < params.mrCount → 3 ≤ l.rWcs.length

theorem lenient_fit {o : ByteOrder} {params : DccsParameters} {r : Role} :
    Lenient (Fit o params r) := by
  intro l op hop
  cases op <;> first | exact hop.elim | exact ⟨trivial, trivial, trivial, fun _ he => nomatch he⟩

end ControlExec

end RdmaOpera
