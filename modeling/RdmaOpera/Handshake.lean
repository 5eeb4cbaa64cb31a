import RdmaOpera.AddressExchange
import RdmaOpera.ControlMain
import RdmaOpera.Standing

/-!
# The handshake of `control_exec`

The server fetches and then announces, the client announces and then fetches, and both do so over
the same two queues. While nothing fails the connection stands (`Standing`), one side can always
move on, and when both have returned, the addresses are the peer's and nothing is in flight.
-/

namespace RdmaOpera

open Lib Prog

namespace ControlExec

def handshake (o : ByteOrder) (requestsIn requestsOut : Role → List DccsRequest) (count : Nat)
    (r : Role) :
    VProg (Int × List DccsRequest) := exchangeMrInfo o r (requestsIn r) (requestsOut r) count

/-- The client's first two blocks are announced from, the server's are received into. -/
def handshakeSide (requestsIn : Role → List DccsRequest) (count : Nat) : Role → Side
  | .client => ⟨requestsIn .client, count, 0, 2, 0, 2⟩
  | .server => ⟨requestsIn .server, count, 2, 0, 2, 0⟩

end ControlExec

namespace ControlExec

section
variable {o : ByteOrder} {requestsIn requestsOut : Role → List DccsRequest} {count : Nat}

theorem handshakeSide_count (r : Role) : (handshakeSide requestsIn count r).count = count := by
  cases r <;> rfl

theorem handshakeSide_sent (r : Role) : (handshakeSide requestsIn count r).sent = requestsIn r := by
  cases r <;> rfl

theorem handshakeSide_apart (r : Role) : (handshakeSide requestsIn count r).Apart := by
  cases r with
  | client => exact .inl (show 0 + 1 < 2 by decide)
  | server => exact .inr (show 0 + 1 < 2 by decide)

/-- What the two sides post. -/
abbrev handshakePlan (o : ByteOrder) (requestsIn : Role → List DccsRequest) (count : Nat) (r : Role) :
    Plan :=
  exchangePlan o (handshakeSide requestsIn count r)

/-! ## Each side on its own -/

/-- One side has returned: its four transfers are over, and it knows the peer's addresses. -/
structure Done (requestsIn : Role → List DccsRequest) (count : Nat) (r : Role)
    (res : Int × List DccsRequest) (l : Local) :
    Prop where
  rv : 0 ≤ res.1
  addresses : AddressesOf (requestsIn r.peer) count res.2
  sq : l.sq.length = 2
  rq : l.rq.length = 2
  sWcs : l.sWcs.length = 2
  rWcs : l.rWcs.length = 2

theorem addresses_of_fetched {requests : List DccsRequest} {l l' : Local} {r : Role}
    {requests' : List DccsRequest} (hlen : count ≤ requests.length) (hrq : l.rq = [])
    (h : Fetched (ExchangeData o (requestsIn r.peer) count) o requests count l requests' l') :
    AddressesOf (requestsIn r.peer) count requests' ∧ l'.rq.length = 2 ∧ l'.sWcs = l.sWcs ∧
      l'.rWcs.length = l.rWcs.length + 2 := by
  obtain ⟨-, -, hsWcs, data, hdata, -, hcase⟩ := h
  rw [hrq] at hdata
  rcases hcase with ⟨hne, -⟩ | ⟨-, hstored⟩
  · exact absurd (exchangeData_count hdata) hne
  · obtain ⟨-, ⟨infos, ⟨-, infos', hinfos, hpayload⟩, hreq, -⟩, hrq', hrWcs⟩ := hstored
    have hpayload : infos = infos' := hpayload.trans (if_neg (Nat.succ_ne_zero _))
    refine ⟨?_, by rw [hrq', hrq]; rfl, hsWcs, hrWcs⟩
    rw [hreq, hpayload]
    exact addressesOf_storeMrInfos o hinfos hlen

/-- `if (rv < 0) { log_error(..); return rv; }` after a step that succeeded. -/
theorem safe_check {plan : Plan} {R : Regime} {D : Nat → List UInt8 → Prop} {α : Type} {rv : Int}
    {l : Local} {p q : VProg α} {Q : α → Local → Prop} (hrv : 0 ≤ rv)
    (hq : Safe (tracking R D) (plan.ok R) q l Q) :
    Safe (tracking R D) (plan.ok R) (if rv < 0 then p else q) l Q :=
  safe_ite.2 ⟨fun hneg => by omega, fun _ => hq⟩

theorem idle_nil : ({} : Local).Idle := ⟨rfl, rfl, by simp⟩

theorem safe_handshake (hsize : count * mrInfoSize < 2 ^ 64)
    (hin : ∀ r, ∀ n < count, (reqAt (requestsIn r) n).mr.isSome)
    (hout : ∀ r, count ≤ (requestsOut r).length) (r : Role) :
    Safe (tracking .steady (ExchangeData o (requestsIn r.peer) count))
      ((handshakePlan o requestsIn count r).ok .steady)
      (handshake o requestsIn requestsOut count r) {} (Done requestsIn count r) := by
  have hidle : ∀ l l' : Local, Exchanged l l' → l.Idle → l'.sWcs.length = l'.sq.length →
    l'.rWcs.length = l'.rq.length →
      l'.Idle := fun l l' he hl hs hr => ⟨hs, hr, he.dereged_lt hl.dereged⟩
  cases r with
  | client =>
    -- announce, then fetch
    have hsend := safe_announce (handshakeSide requestsIn count .client) (o := o) (R := .steady)
      (D := ExchangeData o (requestsIn Role.client.peer) count) (l := {}) rfl rfl
        (Nat.zero_le _) (fun _ => idle_nil)
      (fun _ => hsize) fun _ => hin .client
    refine Safe.bind hsend fun rv l₁ h₁ => ?_
    have hrv := h₁.1 trivial trivial
    obtain ⟨he, hsq, hrq, hsWcs, hrWcs, -⟩ := h₁.2 hrv
    refine safe_check hrv ?_
    have hidle₁ : l₁.Idle :=
      hidle _ _ he idle_nil (by rw [hsWcs, hsq]; rfl) (by rw [hrWcs, hrq]; rfl)
    refine Safe.bind (safe_fetch (handshakeSide requestsIn count .client) _ hrq hrWcs he.blocks
      (by rw [hsWcs]; exact Nat.le_refl 2)
      (fun _ => hidle₁) (fun _ => hsize)) fun res l₂ h₂ => ?_
    have hres := h₂.1 trivial trivial
    have hf := h₂.2 hres
    obtain ⟨haddr, hrq₂, hsWcs₂, hrWcs₂⟩ := addresses_of_fetched (hout .client) hrq hf
    refine safe_check hres ⟨hres, haddr, ?_, hrq₂, ?_, ?_⟩
    · rw [hf.sq, hsq]; rfl
    · rw [hsWcs₂, hsWcs]; rfl
    · rw [hrWcs₂, hrWcs]; rfl
  | server =>
    -- fetch, then announce
    have hfetch := safe_fetch (handshakeSide requestsIn count .server) (requestsOut .server)
      (o := o) (R := .steady)
      (D := ExchangeData o (requestsIn Role.server.peer) count) (l := {}) rfl rfl rfl
      (Nat.zero_le _) (fun _ => idle_nil) (fun _ => hsize)
    refine Safe.bind hfetch fun res l₁ h₁ => ?_
    have hres := h₁.1 trivial trivial
    have hf := h₁.2 hres
    obtain ⟨haddr, hrq, hsWcs, hrWcs⟩ := addresses_of_fetched (hout .server) rfl hf
    refine safe_check hres ?_
    have hidle₁ : l₁.Idle :=
      hidle _ _ hf.exchanged idle_nil (by rw [hsWcs, hf.sq]; rfl) (by rw [hrWcs, hrq]; rfl)
    refine Safe.bind (safe_announce (handshakeSide requestsIn count .server) hf.sq hf.exchanged.blocks
      (by rw [hrWcs]; exact Nat.le_refl 2) (fun _ => hidle₁) (fun _ => hsize) fun _ => hin .server)
        fun rv l₂ h₂ => ?_
    have hrv := h₂.1 trivial trivial
    obtain ⟨-, hsq₂, hrq₂, hsWcs₂, hrWcs₂, -⟩ := h₂.2 hrv
    refine safe_check hrv ⟨hrv, haddr, ?_, ?_, ?_, ?_⟩
    · rw [hsq₂, hf.sq]; rfl
    · rw [hrq₂, hrq]
    · rw [hsWcs₂, hsWcs]; rfl
    · rw [hrWcs₂, hrWcs]; rfl

/-! ## Both sides together -/

section joint
variable {net : Net} (ht : Tracked (handshakePlan o requestsIn count) net)
include ht

/-- All requests are messages. -/
theorem msgs_eq_done (r : Role) : net.msgs r = net.done r :=
  ht.holds.msgs_eq_done fun _ hwr => exchange_no_reads (ht.kept r) hwr

theorem in_step (hb : net.broken = false) (r : Role) :
    (net.host r.peer).rdone = (net.host r).sdone := by
  obtain ⟨hs, hr, -⟩ := ht.holds.standing hb r
  rw [hs, hr, msgs_eq_done ht]

/-- The next message is delivered as soon as there is a receive for it. -/
theorem effect_message (hst : net.Standing) {r : Role} {wr : SendWr}
    (hwr : (net.loc r).sq[(net.host r).sdone]? = some wr) :
    (∃ t, net.effect r wr = some (.carry t)) ∨
      net.effect r wr = none ∧ (net.loc r.peer).rq.length ≤ (net.host r).sdone := by
  obtain ⟨hk, hsize, hv, -, hspot, ⟨infos, hinfos, hlen, -⟩, -⟩ := (ht.kept r).sends _ wr hwr
  obtain ⟨mr, hmr, hlive⟩ := hst.sends r _ wr (Nat.le_refl _) hwr
  have hlivespot : (net.loc r).liveSpot wr.mr wr.addr wr.len =
    some ((handshakeSide requestsIn count r).sb + 1 - (net.host r).sdone, 0) := by
    rw [Local.liveSpot, if_neg, hspot]
    rintro ⟨m, hm, hdead⟩
    rw [hmr] at hm
    cases hm
    exact hlive hdead
  cases hrq : (net.loc r.peer).rq[(net.host r.peer).rdone]? with
  | none =>
    right
    refine ⟨by simp only [Net.effect, hv, hlivespot, hrq, Option.map_none], ?_⟩
    rw [← in_step ht hst.unbroken]
    exact List.getElem?_eq_none_iff.1 hrq
  | some recv =>
    left
    obtain ⟨-, hrlen, hrspot, -⟩ := (ht.kept r.peer).recvs _ recv hrq
    obtain ⟨mr', hmr', hlive'⟩ := hst.recvs r.peer _ recv (Nat.le_refl _) hrq
    have hrecv : (net.loc r.peer).liveSpot recv.mr recv.addr recv.len =
        some ((handshakeSide requestsIn count r.peer).rb + 1 - (net.host r.peer).rdone, 0) := by
      rw [Local.liveSpot, if_neg, hrspot]
      rintro ⟨m, hm, hdead⟩
      rw [hmr'] at hm
      cases hm
      exact hlive' hdead
    -- both sides agree on the length
    have hfits : ¬ recv.len < wr.len := by
      rw [hrlen, hlen, in_step ht hst.unbroken, handshakeSide_count]
      rw [handshakeSide_count] at hsize hinfos ⊢
      rw [length_exchangePayload hinfos hsize]
      exact Nat.lt_irrefl _
    refine ⟨⟨r, wr, some recv, r.peer,
      (handshakeSide requestsIn count r.peer).rb + 1 - (net.host r.peer).rdone, 0,
      slice 0 wr.len (net.content r ((handshakeSide requestsIn count r).sb + 1 - (net.host r).sdone))⟩, ?_⟩
    simp only [Net.effect, hv, hlivespot, hrq, Option.map_some, if_neg hfits, hrecv]

theorem standing_tick (hst : net.Standing) {t : Net.Tick} {net' : Net}
    (hl : NothingFails (.tick t) net') (htick : Net.tick t net = some net') : net'.Standing := by
  cases Net.tick_cases htick with
  | @exec r lost wr e _ hwr he =>
    obtain rfl : lost = false := hl
    rcases effect_message ht hst hwr with ⟨t, hc⟩ | ⟨hn, -⟩
    · rw [hc] at he
      cases he
      obtain ⟨-, rfl, rfl, -⟩ := Net.effect_carry ht.holds.sound hc
      exact hst.carry
    · rw [hn] at he
      cases he
  | flushSend _ _ => exact hl.elim
  | flushRecv _ _ => exact hl.elim
  | fault => exact hl.elim

/-- A message that has its receive can be delivered. -/
theorem canStep_message {α : Type} {c : Conf rc α} (hc : c.st = net) (hst : net.Standing) {r : Role}
    (hs : (net.host r).sdone < (net.loc r).sq.length)
    (hr : (net.host r).sdone < (net.loc r.peer).rq.length) :
    c.CanStep NothingFails := by
  have hwr := List.getElem?_eq_getElem hs
  rcases effect_message ht hst hwr with ⟨t, he⟩ | ⟨-, hle⟩
  · have htick : rc.tick (.exec r false) c.st =
      some (net.apply r (net.loc r).sq[(net.host r).sdone] false (.carry t)) := by
      rw [hc]
      show net.exec r false = _
      simp only [Net.exec, hst.unbroken, Bool.false_eq_true, if_false, hwr, Option.bind_some,
        he, Option.map_some]
    exact Conf.canStep_tick htick rfl
  · omega

end joint

/-- Every request posted has been carried out, every receive posted has got its message. -/
def NothingInFlight (net : Net) : Prop :=
  ∀ r, (net.host r).sdone = (net.loc r).sq.length ∧ (net.host r).rdone = (net.loc r).rq.length

theorem handshake_reachable (hsize : count * mrInfoSize < 2 ^ 64)
    (hin : ∀ r, ∀ n < count, (reqAt (requestsIn r) n).mr.isSome)
    (hout : ∀ r, count ≤ (requestsOut r).length) {c : Conf rc (Int × List DccsRequest)}
    (hc : Reachable NothingFails (start (handshake o requestsIn requestsOut count)) c) :
    Tracked (handshakePlan o requestsIn count) c.st ∧ Net.Standing c.st ∧ ∀ r,
      Safe (tracking .steady (ExchangeData o (requestsIn r.peer) count))
      ((handshakePlan o requestsIn count r).ok .steady)
        (c.prog r) (Net.loc c.st r) (Done requestsIn count r) := by
  refine Tracked.reachable ?_ ?_ ?_ ?_ ?_ ?_ (safe_handshake hsize hin hout) hc
  · exact fun r hint net hl _ => hl
  · intro net r p len data k ht _ hread ha
    have := exchange_reads handshakeSide_count handshakeSide_apart ht hread ha
    rwa [handshakeSide_sent] at this
  · intro net hint r op a _ _ ht hst ha
    exact Net.answer_good (hst.allGood ht.holds) ha
  · intro net hint r op a _ ht hst hok _
    exact hst.called ht.holds (hok.2 trivial) a
  · intro net t net' hl ht hst htick
    exact standing_tick ht hst hl htick
  · exact ⟨rfl, by simp, by simp⟩

/-- What the counters of the two queues satisfy in every state. -/
theorem counters {net : Net} (ht : Tracked (handshakePlan o requestsIn count) net)
    (hb : net.broken = false) (r : Role) :
    (net.loc r).sWcs.length ≤ (net.host r).sdone ∧ (net.host r).sdone ≤ (net.loc r).sq.length ∧
      (net.loc r).sq.length ≤ 2 ∧ (net.loc r).rWcs.length ≤ (net.host r).rdone ∧
      (net.host r).rdone ≤ (net.loc r).rq.length ∧ (net.loc r).rq.length ≤ 2 ∧
      (0 < (net.loc r).sq.length → (handshakeSide requestsIn count r).recvsFirst ≤
      (net.loc r).rWcs.length) ∧
      (0 < (net.loc r).rq.length → (handshakeSide requestsIn count r).sendsFirst ≤
      (net.loc r).sWcs.length) := by
  have hkept := ht.kept r
  refine ⟨ht.holds.sWcs_le hb r, ht.holds.sdone_le r, ?_, ht.holds.rWcs_le r,
    ht.holds.rdone_le r, ?_, ?_, ?_⟩
  · by_contra hlt
    have := (hkept.sends 2 _ (List.getElem?_eq_getElem (show 2 < (net.loc r).sq.length by omega))).lt
    omega
  · by_contra hlt
    have := (hkept.recvs 2 _ (List.getElem?_eq_getElem (show 2 < (net.loc r).rq.length by omega))).lt
    omega
  · exact fun h0 => (hkept.sends 0 _ (List.getElem?_eq_getElem h0)).after
  · exact fun h0 => (hkept.recvs 0 _ (List.getElem?_eq_getElem h0)).after

/-- **The handshake.** While a side has not returned, some step is possible; and when both have,
they know each other's addresses and nothing is in flight. -/
theorem handshake_correct (hsize : count * mrInfoSize < 2 ^ 64)
    (hin : ∀ r, ∀ n < count, (reqAt (requestsIn r) n).mr.isSome)
    (hout : ∀ r, count ≤ (requestsOut r).length) {c : Conf rc (Int × List DccsRequest)}
    (hc : Reachable NothingFails (start (handshake o requestsIn requestsOut count)) c) :
    ((∃ r, ∀ res, c.prog r ≠ .ret res) → c.CanStep NothingFails) ∧
      ∀ res : Role → Int × List DccsRequest, (∀ r, c.prog r = .ret (res r)) →
        (∀ r, 0 ≤ (res r).1 ∧ AddressesOf (requestsIn r.peer) count (res r).2) ∧
        NothingInFlight c.st := by
  obtain ⟨ht, hst, hsafe⟩ := handshake_reachable hsize hin hout hc
  have hb : Net.broken c.st = false := hst.unbroken
  have hcs := counters ht hb .client
  have hss := counters ht hb .server
  have hstep := in_step ht hb .client
  have hstep' := in_step ht hb .server
  simp only [Role.peer] at hstep hstep'
  constructor
  · rintro ⟨r₀, hr₀⟩
    by_contra hstuck
    have hsig : ∀ r, ∀ wr ∈ (Net.loc c.st r).sq, wr.signaled := by
      intro r wr hwr
      obtain ⟨k, hk⟩ := List.getElem?_of_mem hwr
      exact ((ht.kept r).sends k wr hk).signaled
    -- no message can be delivered
    have hm : ∀ r, ¬ ((Net.host c.st r).sdone < (Net.loc c.st r).sq.length ∧
        (Net.host c.st r).sdone < (Net.loc c.st r.peer).rq.length) :=
      fun r h => hstuck (canStep_message ht rfl hst h.1 h.2)
    have hmc := hm .client
    have hms := hm .server
    simp only [Role.peer] at hmc hms
    have hwait : ∀ r, (∃ res, c.prog r = .ret res ∧ Done requestsIn count r res (Net.loc c.st r)) ∨
        Net.WaitsSend c.st r ∨ Net.WaitsRecv c.st r := by
      intro r
      rcases step_or_wait ht.holds hb (hsig r) (hsafe r) with h | h | h | h
      · exact .inl h
      · exact absurd h hstuck
      · exact .inr (.inl h)
      · exact .inr (.inr h)
    simp only [handshakeSide] at hcs hss
    rcases hwait .client with ⟨resc, hretc, -, -, hc1, hc2, hc3, hc4⟩ | ⟨hc1, hc2⟩ | ⟨hc1, hc2⟩
    · -- the client is through: so is every message of the server
      rcases hwait .server with ⟨ress, hrets, -⟩ | ⟨hs1, hs2⟩ | ⟨hs1, hs2⟩
      · cases r₀ with
        | client => exact hr₀ resc hretc
        | server => exact hr₀ ress hrets
      · omega
      · omega
    · -- the client sends: the server has not posted the receive yet, and does nothing else before
      rcases hwait .server with ⟨ress, -, -, -, hs1, hs2, hs3, hs4⟩ | ⟨hs1, hs2⟩ | ⟨hs1, hs2⟩ <;> omega
    · -- the client receives: its own messages are through, so the server sends
      rcases hwait .server with ⟨ress, -, -, -, hs1, hs2, hs3, hs4⟩ | ⟨hs1, hs2⟩ | ⟨hs1, hs2⟩ <;> omega
  · intro res hres
    have hdone : ∀ r, Done requestsIn count r (res r) (Net.loc c.st r) := by
      intro r
      have := hsafe r
      rwa [hres r] at this
    refine ⟨fun r => ⟨(hdone r).rv, (hdone r).addresses⟩, fun r => ?_⟩
    obtain ⟨-, -, hsq, hrq, hsWcs, hrWcs⟩ := hdone r
    have := counters ht hb r
    constructor <;> omega

end

/-- Both sides through, in one of the possible orders. -/
def handshakeRun : List (Label rc) :=
  newBlocks .server 4096 8192 ++ calls .server 3 ++ newBlocks .client 4096 8192 ++
    calls .client 3 ++ carried .client ++
    calls .server 3 ++ calls .client 2 ++ carried .client ++ calls .client 5 ++
      newBlocks .client 12288 16384 ++
    calls .client 3 ++ calls .server 6 ++ newBlocks .server 12288 16384 ++ calls .server 3 ++
      carried .server ++
    calls .client 3 ++ calls .server 2 ++ carried .server ++ calls .server 5 ++ calls .client 6

def registeredAt (r : Role) : List DccsRequest := match r with
  | .client => [{ mr := some ⟨0, 7⟩, buf := ⟨none, 1000⟩ }]
  | .server => [{ mr := some ⟨0, 9⟩, buf := ⟨none, 2000⟩ }]

/-- What both sides have returned. -/
def bothValues (c : Conf rc (Int × List DccsRequest)) :
    Option ((Int × List DccsRequest) × (Int × List DccsRequest)) :=
  (c.prog .client).value.bind fun a => (c.prog .server).value.map fun b => (a, b)

theorem handshake_correct_registered :
    ∃ (c : Conf rc (Int × List DccsRequest)) (res : Role → Int × List DccsRequest),
      Reachable NothingFails (start (handshake .little registeredAt (fun _ => [{}]) 1)) c ∧
      (∀ r, c.prog r = .ret (res r)) ∧
      (∀ r, 0 ≤ (res r).1 ∧ AddressesOf (registeredAt r.peer) 1 (res r).2) ∧
      NothingInFlight c.st := by
  have hrun : ((start (handshake .little registeredAt (fun _ => [{}]) 1)).follow handshakeRun).bind bothValues =
      some ((1, [{ remoteAddr := 2000, remoteRkey := 9 }]),
        (1, [{ remoteAddr := 1000, remoteRkey := 7 }])) := by
    decide +kernel
  have hplain : handshakeRun.all plain := by decide
  obtain ⟨c, hreach, hvalues⟩ := Reachable.of_follow
    (fun l hl net => nothingFails_of_plain (List.all_eq_true.1 hplain l hl) net) hrun
  obtain ⟨a, ha, hvalues⟩ := Option.bind_eq_some_iff.1 hvalues
  obtain ⟨b, hb, -⟩ := Option.map_eq_some_iff.1 hvalues
  have hret : ∀ r, c.prog r = .ret (match r with | .client => a | .server => b) := by
    intro r
    cases r with
    | client => exact eq_ret_of_value ha
    | server => exact eq_ret_of_value hb
  have hin : ∀ r, ∀ n < 1, (reqAt (registeredAt r) n).mr.isSome := by
    intro r n hn
    obtain rfl : n = 0 := by omega
    cases r <;> rfl
  exact ⟨c, _, hreach, hret, (handshake_correct (by decide) hin (by simp) hreach).2 _ hret⟩

end ControlExec

end RdmaOpera
