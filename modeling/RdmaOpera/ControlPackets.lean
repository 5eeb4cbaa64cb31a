import RdmaOpera.Allocation
import RdmaOpera.ControlMain
import RdmaOpera.Lib.Stores

/-!
# The packets of `control_main.c`

The loop at `:63-74` puts six bytes into every outgoing buffer, however long the buffers are: that
they are six bytes long is an `assert`, which the Release build does not contain.

| here | there |
| --- | --- |
| `packet`             | the two `memcpy` of `writePacket` |
| `packets`            | those of the whole loop (`storesOf_writePackets`) |
-/

namespace RdmaOpera.ControlExec

open Lib Prog
open RdmaExec (roleOf)

section
variable (o : ByteOrder)

/-- `memcpy(request->buf, &magic, sizeof magic)`. -/
def copyMagic (request : DccsRequest) : Store UInt8 :=
  ⟨request.buf.addr, o.bytes 4 (htonl o magic).toNat⟩

/-- `memcpy((char *)request->buf + sizeof magic, &ts_index, sizeof ts_index)`. -/
def copyIndex (params : DccsParameters) (request : DccsRequest) : Store UInt8 :=
  ⟨request.buf.addr + 4, o.bytes 2 (htons o params.index).toNat⟩

def packet (params : DccsParameters) (request : DccsRequest) : List (Store UInt8) :=
  match roleOf params with
  | .client => [copyMagic o request, copyIndex o params request]
  -- "Same for now"
  | .server => [copyMagic o request, copyIndex o params request]

def packets (params : DccsParameters) (requestsOut : List DccsRequest) : List (Store UInt8) :=
  (List.range params.count).flatMap fun n => packet o params (reqAt requestsOut n)

/-- What a run has stored, in order. -/
def storesOf (tr : List (Event Verbs)) : List (Store UInt8) := tr.filterMap fun
  | ⟨.store p bytes, _⟩ => some ⟨p.addr, bytes⟩
  | _ => none

/-- Every packet is in its own buffer, and is still there when all have been written. -/
structure PacketsBuilt (params : DccsParameters) (tr : List (Event Verbs))
    (requestsOut : List DccsRequest) : Prop where
  buffer : ∀ n < params.count, InBlock tr (reqAt requestsOut n)
  own : ∀ n < params.count, ∀ s ∈ packet o params (reqAt requestsOut n),
    s.range.Within (reqAt requestsOut n).range
  packet : ∀ mem, ∀ n < params.count,
    contents (stored (packets o params requestsOut) mem) ⟨(reqAt requestsOut n).buf.addr,
      packetLength⟩ =
      ByteOrder.big.bytes 4 magic.toNat ++ ByteOrder.big.bytes 2 params.index.toNat

end

section
variable {o : ByteOrder} {params : DccsParameters} {requestsOut : List DccsRequest}
  {tr : List (Event Verbs)} {rv : Int}

/-- **The loop** writes the packets, one after the other. -/
theorem storesOf_writePackets
    (hret : Reach allocating (writePackets o params requestsOut) [] (.ret ()) tr) :
    storesOf tr = packets o params requestsOut := by
  have hsafe : Safe allocating (fun _ _ => True) (writePackets o params requestsOut) [] fun _ tr =>
      storesOf tr = packets o params requestsOut := by
    refine safe_forN (fun n _ tr => storesOf tr =
      (List.range n).flatMap fun n => packet o params (reqAt requestsOut n)) rfl fun n _ tr _ hI => ?_
    have hnext : ∀ a b : Unit, storesOf (tr ++ [⟨.store (reqAt requestsOut n).buf (magicBytes o), a⟩] ++
        [⟨.store ((reqAt requestsOut n).buf.add 4) (indexBytes o params), b⟩]) =
          (List.range (n + 1)).flatMap fun n => packet o params (reqAt requestsOut n) := by
      intro a b
      rw [List.range_succ, List.flatMap_append, ← hI, storesOf, List.filterMap_append,
        List.filterMap_append, List.append_assoc, List.flatMap_singleton, packet]
      cases roleOf params <;> rfl
    unfold writePacket
    cases roleOf params <;> exact ⟨trivial, fun a _ => ⟨trivial, fun b _ => hnext a b⟩⟩
  exact hsafe.reach hret

theorem mem_packet {request : DccsRequest} {s : Store UInt8} :
    s ∈ packet o params request ↔ s = copyMagic o request ∨ s = copyIndex o params request := by
  unfold packet
  cases roleOf params <;> simp

theorem mem_packets {s : Store UInt8} :
    s ∈ packets o params requestsOut ↔ ∃ n < params.count,
      s ∈ packet o params (reqAt requestsOut n) := by
  simp [packets]

theorem range_copyMagic (request : DccsRequest) :
    (copyMagic o request).range = ⟨request.buf.addr, 4⟩ := by
  simp [copyMagic, Store.range]

theorem range_copyIndex (request : DccsRequest) :
    (copyIndex o params request).range = ⟨request.buf.addr + 4, 2⟩ := by
  simp [copyIndex, Store.range]

/-- A packet is in a buffer that is long enough, and in no other. -/
theorem packet_within_iff {request : DccsRequest} :
    (∀ s ∈ packet o params request, s.range.Within request.range) ↔
      packetLength ≤ request.length := by
  constructor
  · intro h
    obtain ⟨-, hend⟩ := h _ (mem_packet.2 (.inr rfl))
    rw [range_copyIndex] at hend
    simp only [DccsRequest.range] at hend
    unfold packetLength
    omega
  · intro h s hs
    unfold packetLength at h
    rcases mem_packet.1 hs with rfl | rfl
    · rw [range_copyMagic]
      exact ⟨by simp [DccsRequest.range], by simp only [DccsRequest.range]; omega⟩
    · rw [range_copyIndex]
      exact ⟨by simp [DccsRequest.range], by simp only [DccsRequest.range]; omega⟩

/-- A store of a packet is overwritten by nothing if the buffers do not overlap and each packet is
in its own. -/
theorem contents_store
    (hown : ∀ n < params.count, ∀ s ∈ packet o params (reqAt requestsOut n),
      s.range.Within (reqAt requestsOut n).range)
    (hapart : ∀ n < params.count, ∀ n' < params.count, n ≠ n' →
      (reqAt requestsOut n).range.Apart (reqAt requestsOut n').range)
    (mem : Nat → UInt8) {n : Nat} (hn : n < params.count) {s : Store UInt8}
    (hs : s ∈ packet o params (reqAt requestsOut n)) :
    contents (stored (packets o params requestsOut) mem) s.range = s.data := by
  refine contents_stored_of_mem (mem_packets.2 ⟨n, hn, hs⟩) (fun s' hs' => ?_) mem
  obtain ⟨n', hn', hs'⟩ := mem_packets.1 hs'
  by_cases hne : n' = n
  · -- one packet: the index comes after the magic
    subst hne
    rcases mem_packet.1 hs with rfl | rfl <;> rcases mem_packet.1 hs' with rfl | rfl
    · exact .inl rfl
    · right
      rw [range_copyIndex, range_copyMagic]
      exact .inr le_rfl
    · right
      rw [range_copyIndex, range_copyMagic]
      exact .inl le_rfl
    · exact .inl rfl
  · exact .inr ((hapart n' hn' n hn hne).of_within (hown n' hn' s' hs') (hown n hn s hs))

theorem contents_packet
    (hown : ∀ n < params.count, ∀ s ∈ packet o params (reqAt requestsOut n),
      s.range.Within (reqAt requestsOut n).range)
    (hapart : ∀ n < params.count, ∀ n' < params.count, n ≠ n' →
      (reqAt requestsOut n).range.Apart (reqAt requestsOut n').range)
    (mem : Nat → UInt8) {n : Nat} (hn : n < params.count) :
    contents (stored (packets o params requestsOut) mem) ⟨(reqAt requestsOut n).buf.addr,
      packetLength⟩ =
      ByteOrder.big.bytes 4 magic.toNat ++ ByteOrder.big.bytes 2 params.index.toNat := by
  have hmagic := contents_store hown hapart mem hn (mem_packet.2 (.inl rfl))
  have hindex := contents_store hown hapart mem hn (mem_packet.2 (.inr rfl))
  rw [range_copyMagic] at hmagic
  rw [range_copyIndex] at hindex
  rw [packetLength, show 6 = 4 + 2 from rfl, contents_append, hmagic, hindex, ← bytes_htonl o,
    ← bytes_htons o]
  rfl

/-- **Control packets.** They stay in their buffers exactly if there are buffers, of six bytes at
least, in blocks whose size does not wrap. -/
theorem packetsBuilt_iff (h : Accepted params)
    (hret : Reach allocating (allocateBuffer (List.replicate params.count {}) params) []
      (.ret (rv, requestsOut)) tr)
    (hapart : BlocksApart tr) :
    PacketsBuilt o params tr requestsOut ↔
      packetLength ≤ params.length ∧ (∀ x ∈ mallocsOf tr, x.2.isSome) ∧
      countPerMr params * params.length < 2 ^ 64 := by
  obtain ⟨-, gs, hgs, hrec, hfilled⟩ := allocateBuffer_recorded h List.length_replicate hret
  have hin := hrec.inBlock_iff h hgs hfilled
  have hlength : ∀ n < params.count, (reqAt requestsOut n).length = params.length := by
    intro n hn
    obtain ⟨g, -, hr⟩ := hfilled.done n hn
    rw [hr]
    rfl
  constructor
  · intro hbuilt
    refine ⟨?_, hin.1 hbuilt.buffer⟩
    have hfirst : 0 < params.count := h.checked.1
    rw [← hlength 0 hfirst]
    exact packet_within_iff.1 (hbuilt.own 0 hfirst)
  · rintro ⟨hlong, hgranted, hfit⟩
    have hown : ∀ n < params.count, ∀ s ∈ packet o params (reqAt requestsOut n),
      s.range.Within (reqAt requestsOut n).range := by
      intro n hn
      rw [packet_within_iff, hlength n hn]
      exact hlong
    refine ⟨hin.2 ⟨hgranted, hfit⟩, hown, fun mem n hn => contents_packet hown
      (fun n hn n' hn' hne => ?_) mem hn⟩
    exact hrec.apart h hfilled hgranted hfit hapart hn hn' hne

/-- A server with two buffers of `length` bytes in one block. -/
def twoBuffers (length : Nat) :
    DccsParameters :=
      { oneSend with verb := .Write, count := 2, length, repeat_ := 100, server := none }

def oneBlock (length : Nat) : List (Event Verbs) :=
  [⟨.mallocRandom (sizeT (2 * length)), some (⟨some 0, 4096⟩, List.replicate (sizeT (2 * length)) 0)⟩,
    ⟨.regMr .write ⟨some 0, 4096⟩ (sizeT (2 * length)), some ⟨0, 7⟩⟩]

def twoRequests (length : Nat) : List DccsRequest :=
  [0, 1].map fun n =>
    { verb := .Write, buf := ⟨some 0, 4096 + n * length⟩, length, mr := some ⟨0, 7⟩ }

theorem mallocsOf_oneBlock (length : Nat) :
    mallocsOf (oneBlock length) =
      [(sizeT (2 * length), some (⟨some 0, 4096⟩, List.replicate (sizeT (2 * length)) 0))] := rfl

theorem blocksApart_oneBlock (length : Nat) : BlocksApart (oneBlock length) := by
  rw [BlocksApart, mallocsOf_oneBlock]
  exact List.pairwise_singleton _ _

theorem accepted_twoBuffers {length : Nat} (h : 0 < length) (hlt : length < 2 ^ 64) :
    Accepted (twoBuffers length) := by
  refine ⟨twoBuffers length, ⟨nofun, (by decide : 2 < 2 ^ 64), hlt, (by decide : 100 < 2 ^ 64),
    (by decide : 0 < 2 ^ 64), (by decide : 1 < 2 ^ 64)⟩, ?_⟩
  simp [finishArgs, validateArgs, addWarmup, twoBuffers, oneSend, h]

/-- Six bytes are enough. -/
theorem packetsBuilt_iff_twoBuffers :
    PacketsBuilt .little (twoBuffers 6) (oneBlock 6) (twoRequests 6) := by
  have hret : Reach allocating (allocateBuffer (List.replicate 2 {}) (twoBuffers 6)) []
    (.ret (0, twoRequests 6)) (oneBlock 6) :=
    .call (some (⟨some 0, 4096⟩, List.replicate 12 0)) ⟨rfl, by decide⟩
      (.call (some ⟨0, 7⟩) trivial (.refl _ _))
  refine (packetsBuilt_iff (accepted_twoBuffers (by decide) (by decide)) hret
    (blocksApart_oneBlock 6)).2 ⟨le_rfl, ?_, by decide⟩
  simp [mallocsOf_oneBlock]

/-- The two bytes that are the default are not: the second packet is written over the first one, and
leaves the block. -/
theorem packetsBuilt_counterexample : Accepted (twoBuffers 2) ∧
    Reach allocating (allocateBuffer (List.replicate 2 {}) (twoBuffers 2)) []
      (.ret (0, twoRequests 2)) (oneBlock 2) ∧
    ¬ PacketsBuilt .little (twoBuffers 2) (oneBlock 2) (twoRequests 2) ∧
    contents (stored (packets .little (twoBuffers 2) (twoRequests 2)) fun _ => 0) ⟨4096, 8⟩ =
      [0xd1, 0xce, 0xd1, 0xce, 0xfa, 0x11, 0x00, 0x00] := by
  refine ⟨accepted_twoBuffers (by decide) (by decide), ?_, fun h => ?_, by decide +kernel⟩
  · exact .call (some (⟨some 0, 4096⟩, List.replicate 4 0)) ⟨rfl, by decide⟩
      (.call (some ⟨0, 7⟩) trivial (.refl _ _))
  · exact absurd (packet_within_iff.1 (h.own 0 (by decide))) (by decide)

end

end RdmaOpera.ControlExec
