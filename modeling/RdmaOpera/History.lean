import RdmaOpera.Delivery
import RdmaOpera.RdmaRules

/-!
# One process on the connection

What a process can rely on from its own calls alone: `Contract` is what the library promises of an
answer, `Unfailing` that the call did not fail. A block is `Reserved` for the receives that are
meant to fill it; what is sent from one nothing leads to (`Rc.payload`), and what is read from one
that a single receive fills (`Rc.load_arrived`), is then known.
-/

namespace RdmaOpera

open Lib Prog

/-- A block that was not there before. -/
def Fresh (l : Local) (p : Ptr) (size : Nat) : Prop :=
  p.block = some l.blocks.length ∧ 0 < p.addr ∧ p.addr + size ≤ 2 ^ 64

/-- What the library promises. -/
def Contract (l : Local) : (op : VOp) → op.Ans → Prop
  | .stackVar bytes, (p : Ptr) => Fresh l p bytes.length
  | .malloc bytes, (a : Option Ptr) => ∀ p, a = some p → Fresh l p bytes.length
  | .mallocRandom size, (a : Option (Ptr × List UInt8)) =>
    ∀ p bytes, a = some (p, bytes) → Fresh l p size ∧ bytes.length = size
  | .regMr access _ _, (a : Option Mr) =>
    ∀ mr, a = some mr → mr.handle = l.regions.length ∧ (access ≠ .msgs → mr.rkey ∉ l.liveKeys)
  | .postSend _, (rv : Int) => rv = 0 ∨ rv < 0
  | .postRecv _, (rv : Int) => rv = 0 ∨ rv < 0
  | .pollSend num, (p : Poll) => p.wcs.length ≤ num
  | .pollRecv, (p : Poll) => p.wcs.length ≤ 1
  | _, _ => True

/-- The call itself did not fail; a completion may still report an error. -/
def Unfailing : (op : VOp) → op.Ans → Prop
  | .cm _, (rv : Int) => rv = 0
  | .malloc _, (a : Option Ptr) => a.isSome
  | .mallocRandom _, (a : Option (Ptr × List UInt8)) => a.isSome
  | .regMr .., (a : Option Mr) => a.isSome
  | .postSend _, (rv : Int) => rv = 0
  | .postRecv _, (rv : Int) => rv = 0
  | .pollSend _, (p : Poll) => p ≠ .failed
  | .pollRecv, (p : Poll) => p ≠ .failed
  | _, _ => True

namespace Net

theorem place?_some {hint : Hint} {l : Local} {size : Nat} {p : Ptr}
    (h : place? hint l size = some p) : Fresh l p size := by
  unfold place? at h
  split at h
  · rename_i hc; cases h; exact ⟨rfl, hc⟩
  · cases h

/-- The connection keeps the library's promises. -/
theorem answer_contract {net : Net} {hint : Hint} {r : Role} {op : VOp} {a : op.Ans}
    (h : net.answer hint r op = some a) : Contract (net.loc r) op a := by
  cases op with
  | stackVar bytes => exact place?_some h
  | malloc bytes =>
    simp only [answer] at h
    rintro p rfl
    split at h
    · cases h
    · obtain ⟨q, hq, he⟩ := Option.map_eq_some_iff.1 h
      cases he; exact place?_some hq
  | mallocRandom size =>
    simp only [answer] at h
    rintro p bytes rfl
    split at h
    · cases h
    · split at h
      · rename_i hlen
        obtain ⟨q, hq, he⟩ := Option.map_eq_some_iff.1 h
        cases he; exact ⟨place?_some hq, hlen⟩
      · cases h
  | regMr access p len =>
    simp only [answer] at h
    rintro mr rfl
    split at h
    · cases h
    · split at h
      · cases h
      · rename_i hkey
        cases h
        exact ⟨rfl, fun hacc hmem => hkey ⟨hacc, hmem⟩⟩
  | postSend wr | postRecv wr =>
    simp only [answer] at h
    cases h
    show (if hint.fail then (-1 : Int) else 0) = 0 ∨ (if hint.fail then (-1 : Int) else 0) < 0
    split <;> simp
  | pollSend num =>
    simp only [answer] at h
    split at h
    · cases h; exact Nat.zero_le _
    · have := (nextWcs_some h).1
      exact this.trans (Nat.min_le_right _ _)
  | pollRecv =>
    simp only [answer] at h
    split at h
    · cases h; exact Nat.zero_le _
    · exact (nextWcs_some h).1
  | _ => trivial

theorem answer_unfailing {net : Net} {hint : Hint} {r : Role} {op : VOp} {a : op.Ans}
    (h : net.answer hint r op = some a) (hf : hint.fail = false) : Unfailing op a := by
  cases op with
  | cm c => simp only [answer, hf] at h; cases h; rfl
  | malloc bytes =>
    simp only [answer, hf] at h
    obtain ⟨q, -, rfl⟩ := Option.map_eq_some_iff.1 h
    rfl
  | mallocRandom size =>
    simp only [answer, hf, Bool.false_eq_true, if_false] at h
    split at h
    · obtain ⟨q, -, rfl⟩ := Option.map_eq_some_iff.1 h
      rfl
    · cases h
  | regMr access p len =>
    simp only [answer, hf, Bool.false_eq_true, if_false] at h
    split at h
    · cases h
    · cases h; rfl
  | postSend wr => simp only [answer, hf] at h; cases h; rfl
  | postRecv wr => simp only [answer, hf] at h; cases h; rfl
  | pollSend num =>
    simp only [answer, hf] at h
    rintro rfl
    exact absurd (nextWcs_some h).2.1 (by simp [Poll.wcs])
  | pollRecv =>
    simp only [answer, hf] at h
    rintro rfl
    exact absurd (nextWcs_some h).2.1 (by simp [Poll.wcs])
  | _ => trivial

end Net

/-! ## Blocks that are written to on purpose only -/

/-- A block and the region that covers it. -/
structure Buffer (l : Local) (mr : Mr) (p : Ptr) (b : Nat) (bytes : List UInt8) : Prop where
  ptr : p.block = some b
  block : l.blocks[b]? = some ⟨p.addr, bytes⟩
  region : ∃ access rkey, l.regions[mr.handle]? = some ⟨access, p, bytes.length, rkey⟩

theorem Buffer.extends {l l' : Local} {mr : Mr} {p : Ptr} {b : Nat} {bytes : List UInt8}
    (h : Buffer l mr p b bytes) (hl : l.Extends l') : Buffer l' mr p b bytes := by
  obtain ⟨hp, hb, access, rkey, hr⟩ := h
  exact ⟨hp, hl.block hb, access, rkey, hl.region hr⟩

theorem Buffer.spot {l : Local} {mr : Mr} {p : Ptr} {b : Nat} {bytes : List UInt8}
    (h : Buffer l mr p b bytes) :
    l.spot (some mr) p.addr bytes.length = some (b, 0) := by
  obtain ⟨hp, hb, access, rkey, hr⟩ := h
  have hplace : l.place ⟨access, p, bytes.length, rkey⟩ (p.addr + 0) bytes.length = some (b, 0) :=
    Local.place_of_covers hp hb (Nat.le_refl _) (Nat.le_refl _) (by simp)
  exact Local.spot_of_place hr hplace

theorem Buffer.bytesOf {l : Local} {mr : Mr} {p : Ptr} {b : Nat} {bytes : List UInt8}
    (h : Buffer l mr p b bytes) :
    l.bytesOf b = bytes := Local.bytesOf_eq h.block

/-- Nothing but the receives of `K` can be written to the block: no other receive, no read, no key
granted to the peer and no write of the program leads there. -/
structure Local.Reserved (l : Local) (K : Nat → Prop) (b : Nat) : Prop where
  recvs : ∀ k recv x, l.rq[k]? = some recv → l.spot recv.mr recv.addr recv.len =
    some x → x.1 = b → K k
  reads : ∀ wr ∈ l.sq, wr.verb = .Read → ∀ x, l.spot wr.mr wr.addr wr.len = some x → x.1 ≠ b
  grants : ∀ region ∈ l.regions, region.access = .write → region.ptr.block ≠ some b
  stores : ∀ s ∈ l.stores, s.1.block ≠ some b

/-- A good completion has been polled for the `k`-th receive, which fills the block at `p`. -/
def Arrived (l : Local) (k : Nat) (p : Ptr) (len : Nat) : Prop :=
  ∃ b bytes recv wc, p.block = some b ∧ l.blocks[b]? = some ⟨p.addr, bytes⟩ ∧ bytes.length = len ∧
    l.rq[k]? = some recv ∧ l.spot recv.mr recv.addr recv.len = some (b, 0) ∧ recv.len = len ∧
    l.rWcs[k]? = some wc ∧ wc.success

namespace Net

variable {net : Net}

theorem Rc.msgs_recv (h : net.Rc) {r : Role} {t : Transfer} {k : Nat}
    (ht : (net.msgs r)[k]? = some t) :
    ∃ recv, t.recv = some recv ∧ (net.loc r.peer).rq[k]? = some recv := by
  have hk : ((net.msgs r).map (·.recv))[k]? = some t.recv := by simp [ht]
  have hk' : ((net.loc r.peer).rq.map some)[k]? = some t.recv := getElem?_mono (h.msgs_rq r) hk
  rw [List.getElem?_map] at hk'
  obtain ⟨recv, hrecv, he⟩ := Option.map_eq_some_iff.1 hk'
  exact ⟨recv, he.symm, hrecv⟩

theorem mem_msgs {r : Role} {t : Transfer} :
    t ∈ net.msgs r ↔ t ∈ net.transfers ∧ t.src = r ∧ t.wr.verb = .Send := by
  simp [msgs]

theorem mem_done {r : Role} {t : Transfer} : t ∈ net.done r ↔ t ∈ net.transfers ∧ t.src = r := by
  simp [done]

/-- What has been written to a reserved block. -/
theorem Rc.reserved (h : net.Rc) {r : Role} {K : Nat → Prop} {b : Nat}
    (hb : (net.loc r).Reserved K b) {t : Transfer} (ht : t ∈ net.transfers) (hr : t.dst = r)
    (hblock : t.block = b) : ∃ k, K k ∧ (net.msgs r.peer)[k]? = some t := by
  subst hr hblock
  have hs := h.sound t ht
  cases hv : t.wr.verb with
  | None => exact absurd hv hs.verb
  | Send =>
    obtain ⟨hd, -, recv, hr, hle, hspot⟩ := hs.send hv
    have hsrc : t.src = t.dst.peer := by rw [hd, Role.peer_peer]
    obtain ⟨k, hk⟩ := List.getElem?_of_mem (mem_msgs.2 ⟨ht, hsrc, hv⟩)
    obtain ⟨recv', hr', hmem⟩ := h.msgs_recv hk
    rw [hr] at hr'
    cases hr'
    rw [Role.peer_peer] at hmem
    exact ⟨k, hb.recvs k recv _ hmem hspot rfl, hk⟩
  | Write =>
    obtain ⟨-, -, j, region, hj, hacc, -, hplace⟩ := hs.write hv
    obtain ⟨block, hblock, -⟩ := Local.place_some hplace
    exact absurd hblock (hb.grants region (List.mem_of_getElem? hj) hacc)
  | Read =>
    obtain ⟨hd, -, hspot⟩ := hs.read hv
    have hsq : t.wr ∈ (net.loc t.src).sq :=
      (h.done_sq t.src).subset (List.mem_map.2 ⟨t, mem_done.2 ⟨ht, rfl⟩, rfl⟩)
    rw [hd] at hb
    exact absurd rfl (hb.reads t.wr hsq hv _ hspot)

/-- No transfer has written to a block nothing leads to. -/
theorem Rc.not_touched (h : net.Rc) {r : Role} {b : Nat}
    (hb : (net.loc r).Reserved (fun _ => False) b) :
    ¬ net.Touched r b := by
  rintro ⟨t, ht, hr, hblock⟩
  obtain ⟨k, hk, -⟩ := h.reserved hb ht hr hblock
  exact hk

/-- The `k`-th message delivered is the `k`-th one posted. -/
theorem Rc.msgs_sends (h : net.Rc) {r : Role} {t : Transfer} {k : Nat}
    (ht : (net.msgs r)[k]? = some t) :
    (sends (net.loc r).sq)[k]? = some t.wr := by
  have hpre : (net.msgs r).map (·.wr) <+: sends (net.loc r).sq := by
    have hfilter : ((net.done r).map (·.wr)).filter (fun wr => decide (wr.verb = .Send)) =
      (net.msgs r).map (·.wr) := by
      rw [List.filter_map, done, List.filter_filter, msgs]
      congr 1
      exact List.filter_congr fun t _ => by simp [Bool.and_comm]
    rw [← hfilter]
    exact (h.done_sq r).filter _
  exact getElem?_mono hpre (by simp [ht])

/-- The `k`-th request carried out is the `k`-th one posted. -/
theorem Rc.done_sent (h : net.Rc) {r : Role} {t : Transfer} {k : Nat}
    (ht : (net.done r)[k]? = some t) :
    (net.loc r).sq[k]? = some t.wr :=
  getElem?_mono (h.done_sq r) (by simp [ht])

/-- A process that posts messages only. -/
theorem Rc.msgs_eq_done (h : net.Rc) {r : Role} (hall : ∀ wr ∈ (net.loc r).sq, wr.verb = .Send) :
    net.msgs r = net.done r := by
  refine List.filter_congr fun t hmem => ?_
  by_cases hr : t.src = r
  · subst hr
    have hwr : t.wr ∈ (net.loc t.src).sq :=
      (h.done_sq t.src).subset (List.mem_map.2 ⟨t, mem_done.2 ⟨hmem, rfl⟩, rfl⟩)
    simp [hall t.wr hwr]
  · simp [hr]

/-- A good completion polled from the receive queue means that its message has arrived. -/
theorem Rc.arrived (h : net.Rc) {r : Role} {k : Nat} {wc : Wc} (hk : (net.loc r).rWcs[k]? = some wc)
    (hs : wc.success) :
    ∃ t, (net.msgs r.peer)[k]? = some t := by
  have hk' : (net.host r).rcq[k]? = some wc := getElem?_mono (h.rpolled r) hk
  have hlt := (h.rcq_good r.peer k wc (by rwa [Role.peer_peer])).1 hs
  exact ⟨_, List.getElem?_eq_getElem hlt⟩

/-- A message from a block that is never written carries what the block was handed out with. -/
theorem Rc.payload (h : net.Rc) {r : Role} {k : Nat} {t : Transfer} (ht : (net.msgs r)[k]? = some t)
    {b : Nat} {bytes : List UInt8}
    (hspot : (net.loc r).spot t.wr.mr t.wr.addr t.wr.len = some (b, 0))
    (hlen : t.wr.len = bytes.length) (hbytes : (net.loc r).bytesOf b = bytes)
    (hb : (net.loc r).Reserved (fun _ => False) b) : t.data = bytes := by
  obtain ⟨hmem, hsrc, hv⟩ := mem_msgs.1 (List.mem_of_getElem? ht)
  subst hsrc
  obtain ⟨-, ⟨b', off, hspot', ho⟩, -⟩ := (h.sound t hmem).send hv
  rw [hspot] at hspot'
  cases hspot'
  rw [ho (h.not_touched hb), Local.written_eq hb.stores, hbytes, hlen]
  exact slice_all bytes

/-- **Read after receive.** What a program reads from a block that one receive fills. -/
theorem Rc.load_arrived (h : net.Rc) {r : Role} {k : Nat} {p : Ptr} {len : Nat} {data : List UInt8}
    (hread : net.read r p len = some data) (ha : Arrived (net.loc r) k p len)
    (hb : ∀ b, p.block = some b → (net.loc r).Reserved (· = k) b) :
    data.length = len ∧ ∃ t, (net.msgs r.peer)[k]? = some t ∧ t.wr.len ≤ len ∧
      slice 0 t.wr.len data = t.data := by
  obtain ⟨b, bytes, recv, wc, hpb, hblock, hbytes, hrq, hspot, hrlen, hwc, hs⟩ := ha
  obtain ⟨t, ht⟩ := h.arrived hwc hs
  obtain ⟨hmem, hsrc, hv⟩ := mem_msgs.1 (List.mem_of_getElem? ht)
  have hsound := h.sound t hmem
  obtain ⟨hd, -, recv', hr', hle, hspot'⟩ := hsound.send hv
  obtain ⟨recv'', hr'', hrq'⟩ := h.msgs_recv ht
  rw [Role.peer_peer, hrq] at hrq'
  cases hrq'
  rw [hr''] at hr'
  cases hr'
  rw [hsrc, Role.peer_peer] at hd
  rw [hd, hspot] at hspot'
  obtain ⟨hblk, hoff⟩ := Prod.mk.inj (Option.some.inj hspot')
  -- the whole block is read
  have hdata : data = slice 0 len (net.content r b) := by
    simp only [read, hpb, Option.bind_some, hblock] at hread
    split at hread
    · cases hread
      rw [Nat.sub_self]
    · cases hread
  have hclen : (net.content r b).length = len := by
    rw [length_content h.sound, Local.bytesOf_eq hblock]
    exact hbytes
  have hcontent := content_of_mem h.sound hmem fun u hu hud hub => by
    obtain ⟨j, rfl, hj⟩ := h.reserved (hb b hpb) hu (hud.trans hd) (hub.trans hblk.symm)
    rw [ht] at hj
    cases hj
    exact .inl ⟨rfl, rfl⟩
  rw [hd, ← hblk, ← hoff, hsound.length] at hcontent
  refine ⟨by rw [hdata]; exact length_slice (by omega), t, ht, by omega, ?_⟩
  rw [hdata, slice_slice (by omega)]
  exact hcontent

/-- What is read of a message that one receive has filled is what the peer has sent from a block
nothing is written to. -/
theorem Rc.read_message (h : net.Rc) {r : Role} {k : Nat} {p : Ptr} {len : Nat} {data : List UInt8}
    (hread : net.read r p len = some data) (ha : Arrived (net.loc r) k p len)
    (hb : ∀ b, p.block = some b → (net.loc r).Reserved (· = k) b) :
    ∃ wr, (sends (net.loc r.peer).sq)[k]? = some wr ∧ ∀ b payload,
      (net.loc r.peer).spot wr.mr wr.addr wr.len = some (b, 0) → wr.len = payload.length →
      (net.loc r.peer).bytesOf b = payload →
      (net.loc r.peer).Reserved (fun _ => False) b → payload.length = len → data = payload := by
  obtain ⟨hdata, t, ht, hle, hslice⟩ := h.load_arrived hread ha hb
  refine ⟨t.wr, h.msgs_sends ht, fun b payload hspot hlen hbytes hreserved hfull => ?_⟩
  have hpayload := h.payload ht hspot hlen hbytes hreserved
  rw [← hpayload, ← hslice, hlen, hfull, ← hdata]
  exact (slice_all data).symm

end Net

end RdmaOpera
