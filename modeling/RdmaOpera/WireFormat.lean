import RdmaOpera.AddressExchange

/-!
# The exchange of addresses as a wire format

`send_local_mr_info` on a host of one byte order, `get_remote_mr_info` on a host of another, and
nothing between them but the two messages. Addresses and keys travel in network order whatever the
hosts are; the count is sent as it lies in memory (`dccs_rdma.h:514`).
-/

namespace RdmaOpera

open Lib Prog

/-- Nothing fails, and the messages that arrive are `msgs`. -/
abbrev wire (msgs : List (List UInt8)) : Monitor Verbs Local :=
  tracking .steady fun k data => ∀ msg ∈ msgs[k]?, data = msg

/-- What a request of the send queue carries out of a block that nothing has been written to. -/
def payload (l : Local) (wr : SendWr) : Option (List UInt8) :=
  (l.spot wr.mr wr.addr wr.len).map fun spot => slice spot.2 wr.len (l.bytesOf spot.1)

/-- What the receiving host has made of the two messages: the first thing it reads is the count. -/
structure Decoded (o' : ByteOrder) (sent : List DccsRequest) (count : Nat) (l : Local)
    (requests : List DccsRequest) : Prop where
  read : l.loads.head?.map o'.nat = some count
  addresses : AddressesOf sent count requests

/-- Whatever the library's answers, the sender returns, and whatever the library's answers, the
receiver of what the sender has posted returns with the sender's count and addresses. -/
def WireRoundTrip (o o' : ByteOrder) (sent : List DccsRequest) (count : Nat) : Prop :=
  ∀ requests : List DccsRequest, count ≤ requests.length →
    Safe (wire []) (Answerable (wire [])) (sendLocalMrInfo o sent count) {} fun _ l =>
      ∃ msgs, l.sq.map (payload l) = msgs.map some ∧
        Safe (wire msgs) (Answerable (wire msgs)) (getRemoteMrInfo o' requests count) {} fun r l' =>
          Decoded o' sent count l' r.2

/-! ## Either host on its own -/

section hosts
variable {o o' : ByteOrder} {side : Side} {msgs : List (List UInt8)} {l : Local}

/-- A receive of the plan has a block to itself. -/
theorem arrived_unique (hk : (exchangePlan o side).Kept l) {p : Ptr} {len k k' : Nat}
    (ha : Arrived l k p len) (ha' : Arrived l k' p len) : k = k' := by
  obtain ⟨b, bytes, recv, wc, hb, -, -, hrq, hspot, -⟩ := ha
  obtain ⟨b', bytes', recv', wc', hb', -, -, hrq', hspot', -⟩ := ha'
  obtain ⟨hlt, -, hs, -⟩ := hk.recvs k recv hrq
  obtain ⟨hlt', -, hs', -⟩ := hk.recvs k' recv' hrq'
  rw [hspot] at hs
  rw [hspot'] at hs'
  rw [hb] at hb'
  cases hs
  cases hs'
  have := Option.some.inj hb'
  omega

/-- Under the plan no call is left without an answer. -/
theorem answerable (hk : (exchangePlan o side).Kept l) {op : VOp}
    (hok : (exchangePlan o side).ok .steady l op) :
    Answerable (wire msgs) l op := by
  have hready := hok.2 trivial
  let new : Ptr := ⟨some l.blocks.length, 1⟩
  have hfresh : ∀ size < 2 ^ 64, Fresh l new size := by
    intro size hsize
    refine ⟨rfl, Nat.one_pos, ?_⟩
    show 1 + size ≤ 2 ^ 64
    omega
  cases op with
  | cm c => exact ⟨(0 : Int), trivial, trivial, fun _ => rfl, fun _ => trivial⟩
  | stackVar bytes => exact ⟨new, hfresh _ hready, trivial, fun _ => trivial, fun _ => trivial⟩
  | malloc bytes =>
    refine ⟨some new, fun p hp => ?_, trivial, fun _ => rfl, fun _ => trivial⟩
    cases hp
    exact hfresh _ hready
  | mallocRandom size =>
    refine ⟨some (new, List.replicate size 0), fun p bytes hp => ?_, trivial, fun _ => rfl,
      fun _ => trivial⟩
    cases hp
    exact ⟨hfresh _ hready, List.length_replicate⟩
  | regMr access p len =>
    refine ⟨(some ⟨l.regions.length, 0⟩ : Option Mr), fun mr hmr => ?_, trivial, fun _ => rfl,
      fun _ => trivial⟩
    cases hmr
    exact ⟨rfl, fun hne => absurd hready hne⟩
  | postSend wr => exact ⟨(0 : Int), .inl rfl, trivial, fun _ => rfl, fun _ => trivial⟩
  | postRecv wr => exact ⟨(0 : Int), .inl rfl, trivial, fun _ => rfl, fun _ => trivial⟩
  | pollSend num =>
    obtain ⟨rfl, -⟩ := hready
    exact ⟨.got .good [], Nat.le_refl 1, trivial, fun _ => Poll.noConfusion,
      fun _ => by simp [GoodWcs, Poll.wcs]⟩
  | pollRecv => exact ⟨.got .good [], Nat.le_refl 1, trivial, fun _ => Poll.noConfusion,
    fun _ => by simp [GoodWcs, Poll.wcs]⟩
  | load p len =>
    by_cases ha : ∃ k, Arrived l k p len
    · obtain ⟨k, ha⟩ := ha
      refine ⟨(msgs[k]?).getD [], trivial, fun k' ha' msg hmsg => ?_, fun _ => trivial,
        fun _ => trivial⟩
      rw [arrived_unique hk ha ha', Option.mem_def.1 hmsg]
      rfl
    · exact ⟨[], trivial, fun k hk => absurd ⟨k, hk⟩ ha, fun _ => trivial, fun _ => trivial⟩
  | getCycles => exact ⟨(0 : UInt64), trivial, trivial, fun _ => trivial, fun _ => trivial⟩
  | waitUntil target => exact ⟨([], 0), trivial, trivial, fun _ => trivial, fun _ => trivial⟩
  | _ => exact ⟨(), trivial, trivial, fun _ => trivial, fun _ => trivial⟩

/-- What keeps the plan never gets stuck. -/
theorem safe_answerable {α : Type} {p : VProg α} {Q : α → Local → Prop}
    (h : Safe (wire msgs) ((exchangePlan o side).ok .steady) p {} Q) :
    Safe (wire msgs) (Answerable (wire msgs)) p {} fun a l => Q a l ∧
      (exchangePlan o side).Kept l :=
  h.invariant (Plan.kept_nil _) (fun _ _ hk => answerable hk) fun _ _ _ hk hok ha =>
    hk.upd hok.1 ha.contract

variable {sent : List DccsRequest} {count : Nat} {infos : List UInt8}

/-- **The sender** returns and has posted the count and the array. -/
theorem safe_sent (o : ByteOrder) (hinfos : localMrInfos o sent count = some infos)
    (hsize : count * mrInfoSize < 2 ^ 64) (hmrs : ∀ n < count, (reqAt sent n).mr.isSome) :
    Safe (wire []) (Answerable (wire [])) (sendLocalMrInfo o sent count) {} fun _ l =>
      l.sq.map (payload l) = [o.bytes 8 count, infos].map some := by
  let side : Side := ⟨sent, count, 0, 2, 0, 0⟩
  have hsafe := safe_answerable
    (safe_announce (R := .steady) (D := fun k data => ∀ msg ∈ ([] : List (List UInt8))[k]?, data = msg)
    (o := o) side (l := {}) rfl rfl (Nat.zero_le _) (fun _ => ⟨rfl, rfl, by simp⟩) (fun _ => hsize)
      fun _ => hmrs)
  refine hsafe.mono fun rv l ⟨⟨hrv, hann⟩, hk⟩ => ?_
  have hsq : l.sq.length = 2 := (hann (hrv trivial trivial)).sq
  have hpay : ∀ k wr, l.sq[k]? = some wr →
    payload l wr = some (exchangePayload o count k infos) := by
    intro k wr hwr
    obtain ⟨-, -, -, -, hspot, ⟨infos', hinfos', hlen, hbytes⟩, -⟩ := hk.sends k wr hwr
    rw [hinfos] at hinfos'
    cases hinfos'
    rw [payload, hspot, Option.map_some, hbytes, hlen, slice_all]
  obtain ⟨wr₀, wr₁, hwrs⟩ := List.length_eq_two.1 hsq
  rw [hwrs] at hpay ⊢
  rw [List.map_cons, List.map_cons, hpay 0 wr₀ rfl, hpay 1 wr₁ rfl]
  rfl

/-- **The receiver** returns; it has decoded what was sent if and only if it reads the count that
was sent. -/
theorem safe_decoded (o o' : ByteOrder) (hinfos : localMrInfos o sent count = some infos)
    (hsize : count * mrInfoSize < 2 ^ 64) {requests : List DccsRequest}
    (hlen : count ≤ requests.length) :
    Safe (wire [o.bytes 8 count, infos]) (Answerable (wire [o.bytes 8 count, infos]))
      (getRemoteMrInfo o' requests count) {}
      fun r l => Decoded o' sent count l r.2 ↔ o'.nat (o.bytes 8 count) = count := by
  let side : Side := ⟨sent, count, 2, 0, 0, 0⟩
  have hsafe := safe_answerable
    (safe_fetch (R := .steady) (D := fun k data => ∀ msg ∈ [o.bytes 8 count, infos][k]?, data = msg)
    (o := o') side requests (l := {}) rfl rfl rfl (Nat.zero_le _) (fun _ => ⟨rfl, rfl, by simp⟩)
      fun _ => hsize)
  refine hsafe.mono fun r l ⟨⟨hrv, hfetched⟩, _⟩ => ?_
  obtain ⟨-, -, -, data, hdata, hloads, hcase⟩ := hfetched (hrv trivial trivial)
  obtain rfl : data = o.bytes 8 count := hdata _ rfl
  have hhead : l.loads.head? = some (o.bytes 8 count) := by
    obtain ⟨rest, hrest⟩ := hloads
    rw [← hrest]
    rfl
  constructor
  · intro hdec
    have := hdec.read
    rw [hhead] at this
    exact Option.some.inj this
  · intro hcount
    refine ⟨by rw [hhead, Option.map_some, hcount], ?_⟩
    rcases hcase with ⟨hne, -⟩ | ⟨-, hstored⟩
    · exact absurd hcount hne
    · obtain ⟨infos', hinfos', hreq, -⟩ := hstored.infos
      obtain rfl : infos' = infos := hinfos' _ rfl
      rw [hreq]
      exact addressesOf_storeMrInfos o' hinfos hlen

end hosts

/-! ## The two together -/

section pair
variable {o o' : ByteOrder} {sent : List DccsRequest} {count : Nat}

/-- All hangs on how the receiver reads the count. -/
theorem wireRoundTrip_count (hmrs : ∀ n < count, (reqAt sent n).mr.isSome)
    (hsize : count * mrInfoSize < 2 ^ 64) :
    WireRoundTrip o o' sent count ↔ o'.nat (o.bytes 8 count) = count := by
  obtain ⟨infos, hinfos⟩ : ∃ infos, localMrInfos o sent count = some infos := ⟨_, if_pos hmrs⟩
  have hsent := safe_sent o hinfos hsize hmrs
  constructor
  · intro h
    -- some run of the sender and some run of the receiver return
    have hlen : count ≤ (List.replicate count ({} : DccsRequest)).length := by simp
    obtain ⟨-, l, -, ⟨msgs, hmsgs, hget⟩, hposted⟩ :=
      ((h _ hlen).and hsent).returns (not_not_intro trivial) fun _ _ ha => ha
    obtain rfl : [o.bytes 8 count, infos] = msgs :=
      List.map_injective_iff.2 (Option.some_injective _) (hposted.symm.trans hmsgs)
    obtain ⟨r, l', -, hdec, hiff⟩ :=
      (hget.and (safe_decoded o o' hinfos hsize hlen)).returns (not_not_intro trivial)
      fun _ _ ha => ha
    exact hiff.1 hdec
  · intro hcount requests hlen
    refine hsent.mono fun _ l hposted => ⟨_, hposted, ?_⟩
    exact (safe_decoded o o' hinfos hsize hlen).mono fun r l' hiff => hiff.2 hcount

/-- **The wire format** carries count and addresses from one host to the other if and only if the
two have the same byte order or the eight bytes of the count are the same either way round. -/
theorem wireRoundTrip_iff (hmrs : ∀ n < count, (reqAt sent n).mr.isSome)
    (hsize : count * mrInfoSize < 2 ^ 64) :
    WireRoundTrip o o' sent count ↔ o = o' ∨ (leBytes 8 count).reverse = leBytes 8 count := by
  have hlt : count < 256 ^ 8 := by
    simp only [mrInfoSize] at hsize
    omega
  rw [wireRoundTrip_count hmrs hsize]
  by_cases ho : o = o'
  · subst ho
    rw [ByteOrder.nat_bytes, Nat.mod_eq_of_lt hlt]
    simp
  · rw [ByteOrder.nat_bytes_other ho hlt]
    simp [ho]

end pair

theorem wireRoundTrip_iff_registered :
    WireRoundTrip .little .little [registered] 1 ↔ ByteOrder.little = .little ∨
      (leBytes 8 1).reverse = leBytes 8 1 :=
  wireRoundTrip_iff (by decide) (by decide)

/-- One address from a little-endian host to a big-endian one: the count arrives as 2^56. -/
theorem wireRoundTrip_counterexample : ¬ WireRoundTrip .little .big [registered] 1 := by
  rw [wireRoundTrip_count (by decide) (by decide)]
  decide

end RdmaOpera
