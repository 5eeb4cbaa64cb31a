import RdmaOpera.Exchange
import RdmaOpera.Interleaving

/-!
# Soundness of the exchange of addresses

`send_local_mr_info` on one host, `get_remote_mr_info` on the other, any interleaving, any failures.
Each host keeps an `exchangePlan`: the count and the array leave from two blocks nothing is written
to, and arrive in two blocks that one receive fills each. When the counts agree, a result that is
not negative means that the addresses are the peer's. When they do not, `get_remote_mr_info` jumps
to its `failure` label with the 1 that `dccs_rdma_recv_comp` left in `rv` (`dccs_rdma.h:422-425`),
which its callers take for success.
-/

namespace RdmaOpera

open Lib Prog

/-! ## What the two hosts post -/

/-- One host of the exchange: it announces `sent` from the blocks `sb` (array) and `sb + 1` (count),
and expects as many addresses in `rb` and `rb + 1`. -/
structure Side where
  sent : List DccsRequest
  count : Nat
  sb : Nat
  rb : Nat
  /-- receives polled before the first send -/
  recvsFirst : Nat := 0
  /-- sends polled before the first receive -/
  sendsFirst : Nat := 0

/-- The `k`-th request of the send queue. -/
structure Announces (o : ByteOrder) (side : Side) (l : Local) (k : Nat) (wr : SendWr) : Prop where
  lt : k < 2
  size : side.count * mrInfoSize < 2 ^ 64
  verb : wr.verb = .Send
  signaled : wr.signaled
  spot : l.spot wr.mr wr.addr wr.len = some (side.sb + 1 - k, 0)
  payload : ∃ infos, localMrInfos o side.sent side.count = some infos ∧
    wr.len = (exchangePayload o side.count k infos).length ∧
    l.bytesOf (side.sb + 1 - k) = exchangePayload o side.count k infos
  after : side.recvsFirst ≤ l.rWcs.length

/-- The `k`-th receive. -/
structure Expects (side : Side) (l : Local) (k : Nat) (recv : RecvWr) : Prop where
  lt : k < 2
  len : recv.len = exchangeSize side.count k
  spot : l.spot recv.mr recv.addr recv.len = some (side.rb + 1 - k, 0)
  after : side.sendsFirst ≤ l.sWcs.length

def exchangePlan (o : ByteOrder) (side : Side) : Plan where
  send := Announces o side
  recv := Expects side
  region access _ := access = .msgs
  send_extends := by
    rintro l l' k wr he ⟨hk, hsize, hv, hs, hspot, ⟨infos, hinfos, hlen, hbytes⟩, hafter⟩
    obtain ⟨m, r, -, -, hplace⟩ := Local.spot_some hspot
    obtain ⟨block, -, hblock, -⟩ := Local.place_some hplace
    refine ⟨hk, hsize, hv, hs, he.spot hspot, ⟨infos, hinfos, hlen, ?_⟩,
      hafter.trans he.rWcs.length_le⟩
    rw [he.bytesOf hblock, hbytes]
  recv_extends := by
    rintro l l' k recv he ⟨hk, hlen, hspot, hafter⟩
    exact ⟨hk, hlen, he.spot hspot, hafter.trans he.sWcs.length_le⟩
  msgs _ := rfl

/-- The peer's `k`-th payload. -/
def ExchangeData (o : ByteOrder) (sent : List DccsRequest) (count k : Nat) (data : List UInt8) :
    Prop :=
  count * mrInfoSize < 2 ^ 64 ∧ ∃ infos, localMrInfos o sent count = some infos ∧
    data = exchangePayload o count k infos

/-- Each payload fills its receive. -/
theorem length_exchangePayload {o : ByteOrder} {sent : List DccsRequest} {count k : Nat}
    {infos : List UInt8} (hinfos : localMrInfos o sent count = some infos)
    (hsize : count * mrInfoSize < 2 ^ 64) :
    (exchangePayload o count k infos).length = exchangeSize count k := by
  by_cases h0 : k = 0
  · simp [exchangePayload, exchangeSize, h0]
  · simp only [exchangePayload, exchangeSize, if_neg h0, sizeT_of_lt hsize]
    rw [(localMrInfos_some o hinfos).1, Nat.mul_comm]

section plan
variable {o : ByteOrder} {side : Side} {l : Local}

theorem exchange_no_reads (h : (exchangePlan o side).Kept l) {wr : SendWr} (hwr : wr ∈ l.sq) :
    wr.verb = .Send := by
  obtain ⟨k, hk⟩ := List.getElem?_of_mem hwr
  exact (h.sends k wr hk).verb

/-- Every request is a message. -/
theorem exchange_sends (h : (exchangePlan o side).Kept l) : sends l.sq = l.sq := by
  refine List.filter_eq_self.2 fun wr hwr => ?_
  simp [exchange_no_reads h hwr]

/-- Nothing is written to the blocks announced from. -/
theorem exchange_reserved_send (h : (exchangePlan o side).Kept l)
    (hd : side.sb + 1 < side.rb ∨ side.rb + 1 < side.sb) {k : Nat} (hk : k < 2) :
    l.Reserved (fun _ => False) (side.sb + 1 - k) where
  recvs j recv x hj hx hb := by
    obtain ⟨hj2, -, hspot⟩ := h.recvs j recv hj
    rw [hspot] at hx
    cases hx
    simp only at hb
    omega
  reads wr hwr hv := by
    rw [exchange_no_reads h hwr] at hv
    cases hv
  grants region hm ha := by
    have : region.access = .msgs := h.regions region hm
    rw [this] at ha
    cases ha
  stores s hs := (h.mem_stores hs).elim fun _ hf => hf.elim

/-- Only the `k`-th receive writes to its block. -/
theorem exchange_reserved_recv (h : (exchangePlan o side).Kept l) {k : Nat} (hk : k < 2) :
    l.Reserved (· = k) (side.rb + 1 - k) where
  recvs j recv x hj hx hb := by
    obtain ⟨hj2, -, hspot⟩ := h.recvs j recv hj
    rw [hspot] at hx
    cases hx
    simp only at hb
    omega
  reads wr hwr hv := by
    rw [exchange_no_reads h hwr] at hv
    cases hv
  grants region hm ha := by
    have : region.access = .msgs := h.regions region hm
    rw [this] at ha
    cases ha
  stores s hs := (h.mem_stores hs).elim fun _ hf => hf.elim

end plan

/-- The two blocks announced from and the two blocks received into are four. -/
def Side.Apart (side : Side) : Prop := side.sb + 1 < side.rb ∨ side.rb + 1 < side.sb

/-- **What is read of a message is what the peer announced.** -/
theorem exchange_reads {o : ByteOrder} {side : Role → Side} {count : Nat}
    (hcount : ∀ r, (side r).count = count) (hd : ∀ r, (side r).Apart) {net : Net}
    (h : Tracked (fun r => exchangePlan o (side r)) net) {r : Role} {p : Ptr} {len k : Nat}
    {data : List UInt8} (hread : net.read r p len = some data) (ha : Arrived (net.loc r) k p len) :
    ExchangeData o (side r.peer).sent count k data := by
  have hkept := h.kept r
  have hkept' := h.kept r.peer
  have ⟨b, bytes, recv, wc, hpb, _, _, hrq, hspot, hrlen, _⟩ := ha
  obtain ⟨hk, hlen, hspot'⟩ := hkept.recvs k recv hrq
  rw [hspot] at hspot'
  cases hspot'
  obtain ⟨wr, hsend, hpayload⟩ := h.holds.read_message hread ha fun b' hb' => by
    rw [hpb] at hb'
    cases hb'
    exact exchange_reserved_recv hkept hk
  rw [exchange_sends hkept'] at hsend
  obtain ⟨-, hsize, -, -, htspot, ⟨infos, hinfos, htlen, hbytes⟩, -⟩ := hkept'.sends k wr hsend
  have hpayload := hpayload _ _ htspot htlen hbytes (exchange_reserved_send hkept' (hd _) hk)
  rw [hcount] at hsize hinfos hpayload hlen
  refine ⟨hsize, infos, hinfos, hpayload ?_⟩
  rw [length_exchangePayload hinfos hsize, ← hrlen, hlen]

/-! ## `get_remote_mr_info` against `send_local_mr_info` -/

/-- `r` fetches `count` addresses into `requests` while its peer announces the `count'` requests of
`sent`. -/
def exchangeRun (o : ByteOrder) (r : Role) (requests : List DccsRequest) (count : Nat)
    (sent : List DccsRequest) (count' : Nat) (q : Role) : VProg (Int × List DccsRequest) :=
  if q = r then getRemoteMrInfo o requests count
  else do
    let rv ← sendLocalMrInfo o sent count'
    pure (rv, sent)

/-- The addresses stored are those of `sent`. -/
def AddressesOf (sent : List DccsRequest) (count : Nat) (requests : List DccsRequest) : Prop :=
  ∀ i < count, ∃ mr, (reqAt sent i).mr = some mr ∧
    (reqAt requests i).remoteAddr = UInt64.ofNat (reqAt sent i).buf.addr ∧
      (reqAt requests i).remoteRkey = mr.rkey

/-- Whenever `get_remote_mr_info` has returned a value that is not negative, the counts agree and
the addresses are the peer's: in every run, whatever fails in it. -/
def ExchangeSound (o : ByteOrder) (r : Role) (requests : List DccsRequest) (count : Nat)
    (sent : List DccsRequest) (count' : Nat) : Prop :=
  ∀ c, Reachable AnyStep (start (exchangeRun o r requests count sent count')) c →
    ∀ rv requests', c.prog r = .ret (rv, requests') → 0 ≤ rv → count' = count ∧
      AddressesOf sent count requests'

theorem addressesOf_storeMrInfos {o : ByteOrder} (o' : ByteOrder) {sent requests : List DccsRequest}
    {count : Nat} {infos : List UInt8} (hinfos : localMrInfos o sent count = some infos)
    (hlen : count ≤ requests.length) :
    AddressesOf sent count (storeMrInfos o' infos requests count) := by
  intro i hi
  obtain ⟨mr, hmr, hslice⟩ := (localMrInfos_some o hinfos).2 i hi
  refine ⟨mr, hmr, ?_⟩
  rw [storeMrInfos, reqAt_mapIdx (by omega), if_pos hi, storeMrInfo_mrInfoBytes o o' hslice]
  exact ⟨rfl, rfl⟩

theorem exchangeData_count {o : ByteOrder} {sent : List DccsRequest} {count : Nat}
    {data : List UInt8} (h : ExchangeData o sent count 0 data) : o.nat data = count := by
  obtain ⟨hsize, infos, -, rfl⟩ := h
  rw [exchangePayload, if_pos rfl, ByteOrder.nat_bytes, Nat.mod_eq_of_lt]
  simp only [mrInfoSize] at hsize
  omega

/-! Both sides keep their plans, whatever fails. -/

section sides
variable {o : ByteOrder} {R : Regime} {D : Nat → List UInt8 → Prop} {l : Local}

theorem safe_fetch (side : Side) (requests : List DccsRequest) (hrq : l.rq = [])
    (hrWcs : l.rWcs = []) (hrb : l.blocks.length = side.rb)
    (hafter : side.sendsFirst ≤ l.sWcs.length) (hidle : R.live → l.Idle)
    (hsize : R.live → side.count * mrInfoSize < 2 ^ 64) :
    Safe (tracking R D) ((exchangePlan o side).ok R) (getRemoteMrInfo o requests side.count) l
      fun res l' =>
      (R.calls → R.completions → 0 ≤ res.1) ∧
      (0 ≤ res.1 → Fetched D o requests side.count l res.2 l') := by
  refine Tracking.getRemoteMrInfo (by rw [hrq, hrWcs]; rfl) hidle ?_ (fun _ _ _ _ _ _ _ _ => trivial) hsize
  intro l' recv k hk he hlen hspot
  rw [hrq, List.length_nil, Nat.zero_add]
  exact ⟨hk, hlen, by rw [← hrb]; exact hspot, hafter.trans he.sWcs.length_le⟩

theorem safe_announce (side : Side) (hsq : l.sq = []) (hsb : l.blocks.length = side.sb)
    (hafter : side.recvsFirst ≤ l.rWcs.length) (hidle : R.live → l.Idle)
    (hsize : R.live → side.count * mrInfoSize < 2 ^ 64)
    (hmrs : R.live → ∀ n < side.count, (reqAt side.sent n).mr.isSome) :
    Safe (tracking R D) ((exchangePlan o side).ok R) (sendLocalMrInfo o side.sent side.count) l
      fun rv l' =>
      (R.calls → R.completions → 0 ≤ rv) ∧ (0 ≤ rv → Announced l l') := by
  refine Tracking.sendLocalMrInfo hidle ?_ hsize hmrs
  intro infos hinfos hsize' l' wr k hk he hv hs hlen hbytes hspot
  rw [hsq, List.length_nil, Nat.zero_add]
  rw [hsb] at hspot hbytes
  exact ⟨hk, hsize', hv, hs, hspot, ⟨infos, hinfos, hlen, hbytes⟩, hafter.trans he.rWcs.length_le⟩

end sides

/-- **When the counts agree, what has been accepted is right.** -/
theorem exchangeSound_of_count_eq (o : ByteOrder) (r : Role) {requests sent : List DccsRequest}
    {count count' : Nat} (hlen : count ≤ requests.length) (heq : count' = count) :
    ExchangeSound o r requests count sent count' := by
  subst heq
  intro c hc rv requests' hret hrv
  let side : Role → Side :=
    fun q => if q = r then ⟨sent, count', 2, 0, 0, 0⟩ else ⟨sent, count', 0, 2, 0, 0⟩
  let D : Nat → List UInt8 → Prop := ExchangeData o sent count'
  let Q : Role → Int × List DccsRequest → Local → Prop := fun q res l' =>
    q = r → 0 ≤ res.1 → Fetched D o requests count' {} res.2 l'
  have hr : side r = ⟨sent, count', 2, 0, 0, 0⟩ := if_pos rfl
  have hp : ∀ q, q ≠ r → side q = ⟨sent, count', 0, 2, 0, 0⟩ := fun q hq => if_neg hq
  have hside : ∀ q, (side q).count = count' ∧ (side q).sent = sent ∧ (side q).Apart := by
    intro q
    by_cases hq : q = r
    · rw [hq, hr]
      exact ⟨rfl, rfl, .inr (show 0 + 1 < 2 by decide)⟩
    · rw [hp q hq]
      exact ⟨rfl, rfl, .inl (show 0 + 1 < 2 by decide)⟩
  have hsafe : ∀ q, Safe (tracking .any D) ((exchangePlan o (side q)).ok .any)
      (exchangeRun o r requests count' sent count' q) {} (Q q) := by
    intro q
    by_cases hq : q = r
    · subst hq
      rw [exchangeRun, if_pos rfl, hr]
      exact (safe_fetch _ _ rfl rfl rfl (Nat.zero_le _) False.elim False.elim).mono
        fun _ _ h _ => h.2
    · rw [exchangeRun, if_neg hq, hp q hq]
      exact Safe.bind (safe_announce _ rfl rfl (Nat.zero_le _) False.elim False.elim False.elim)
        fun _ _ _ he => absurd he hq
  have hreads : ∀ net q p len data k, Tracked (fun q => exchangePlan o (side q)) net →
    net.read q p len = some data →
      Arrived (net.loc q) k p len → D k data := by
    intro net q p len data k ht hread ha
    have := exchange_reads (fun q => (hside q).1) (fun q => (hside q).2.2) ht hread ha
    rwa [(hside _).2.1] at this
  obtain ⟨-, -, hend⟩ :=
    Tracked.reachable (R := .any) (I := fun _ => True) (D := fun _ => D) (fun _ _ _ _ hf => hf.elim)
    (fun net q p len data k ht _ => hreads net q p len data k ht) (fun _ _ _ _ _ hf => hf.elim)
    (fun _ _ _ _ _ _ _ _ _ _ => trivial) (fun _ _ _ _ _ _ _ => trivial) trivial hsafe hc
  have hret' := hend r
  rw [hret] at hret'
  obtain ⟨-, -, -, data, hdata, -, hcase⟩ := hret' rfl hrv
  refine ⟨rfl, ?_⟩
  rcases hcase with ⟨hne, -⟩ | ⟨-, hstored⟩
  · exact absurd (exchangeData_count hdata) hne
  · obtain ⟨infos, ⟨-, infos', hinfos, hpayload⟩, hreq, -⟩ := hstored.infos
    have hpayload : infos = infos' := hpayload.trans (if_neg (Nat.succ_ne_zero _))
    have hreq : requests' = storeMrInfos o infos requests count' := hreq
    rw [hreq, hpayload]
    exact addressesOf_storeMrInfos o hinfos hlen

/-- A request whose region is registered. -/
def registered : DccsRequest := { mr := some ⟨0, 7⟩ }

theorem exchangeSound_of_count_eq_registered :
    ExchangeSound .little .client [{}] 1 [registered] 1 :=
  exchangeSound_of_count_eq .little .client (by decide) rfl

/-- The server announces two requests to a client that expects one. -/
def mismatchRun : List (Label rc) :=
  newBlocks .server 4096 8192 ++ calls .server 3 ++ newBlocks .client 4096 8192 ++
    calls .client 3 ++ carried .server ++
    calls .client 7

/-- The client returns 1 and has stored nothing. -/
theorem exchangeSound_counterexample :
    ¬ ExchangeSound .little .client [{}] 1 [registered, registered] 2 := by
  intro h
  have hrun : ((start (exchangeRun .little .client [{}] 1 [registered, registered] 2)).follow mismatchRun).bind
      (fun c => (c.prog .client).value) = some (1, [{}]) := by decide +kernel
  obtain ⟨c, hc, hret⟩ := Reachable.of_follow (fun l _ net => (trivial : AnyStep l net)) hrun
  have := (h c hc _ _ (eq_ret_of_value hret) (by decide)).1
  omega

end RdmaOpera
