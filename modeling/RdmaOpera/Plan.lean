import RdmaOpera.History

/-!
# What a process is going to post

A `Plan` says which requests, receives and regions a process may still ask for, given its history;
what it says of one of them stays true while the history grows. `Kept` is the invariant, `ok` the
obligation at each call. `tracking` is the monitor of a process that knows its own history; a
`Regime` says how much may fail.
-/

namespace RdmaOpera

open Lib Prog

structure Plan where
  /-- the `k`-th request of the send queue -/
  send : Local → Nat → SendWr → Prop
  /-- the `k`-th receive -/
  recv : Local → Nat → RecvWr → Prop
  region : Access → Ptr → Prop
  /-- what the process reads, and what it hashes -/
  load : Local → Ptr → Nat → Prop := fun _ _ _ => True
  digest : Local → List (List UInt8) → Prop := fun _ _ => True
  /-- its `k`-th write to one of its own blocks -/
  store : Local → Nat → Ptr × List UInt8 → Prop := fun _ _ _ => False
  send_extends : ∀ {l l' k wr}, l.Extends l' → send l k wr → send l' k wr
  recv_extends : ∀ {l l' k wr}, l.Extends l' → recv l k wr → recv l' k wr
  digest_extends : ∀ {l l' chunks}, l.Extends l' → digest l chunks → digest l' chunks := by
    exact fun _ _ => trivial
  store_extends : ∀ {l l' k s}, l.Extends l' → store l k s → store l' k s := by
    exact fun _ hf => hf
  /-- a region for messages grants the peer nothing -/
  msgs : ∀ p, region .msgs p

namespace Plan

variable {plan : Plan} {l : Local}

/-- Everything asked for so far was as planned. -/
structure Kept (plan : Plan) (l : Local) : Prop where
  sends : ∀ k wr, l.sq[k]? = some wr → plan.send l k wr
  recvs : ∀ k recv, l.rq[k]? = some recv → plan.recv l k recv
  regions : ∀ region ∈ l.regions, plan.region region.access region.ptr
  digests : ∀ chunks ∈ l.digests, plan.digest l chunks
  stores : ∀ k s, l.stores[k]? = some s → plan.store l k s
  keys : l.DistinctKeys

/-- Regions that the peer may reach are registered before any is given back. -/
def allows (plan : Plan) (l : Local) : VOp → Prop
  | .postSend wr => plan.send l l.sq.length wr
  | .postRecv recv => plan.recv l l.rq.length recv
  | .regMr access p _ => plan.region access p ∧ (access = .msgs ∨ l.dereged = [])
  | .load p len => plan.load l p len
  | .logDigest _ _ chunks => plan.digest l chunks
  | .store p bytes => plan.store l l.stores.length (p, bytes)
  | _ => True

theorem kept_nil (plan : Plan) : plan.Kept {} :=
  ⟨by simp, by simp, by simp, by simp, by simp, by simp [Local.DistinctKeys]⟩

theorem Kept.of_eq {l' : Local} (h : plan.Kept l) (he : l.Extends l') (hs : l'.sq = l.sq)
    (hr : l'.rq = l.rq) (hg : l'.regions = l.regions) (hd : l'.digests = l.digests)
    (hst : l'.stores = l.stores) : plan.Kept l' where
  digests chunks hm := plan.digest_extends he (h.digests chunks (hd ▸ hm))
  stores k s hk := plan.store_extends he (h.stores k s (hst ▸ hk))
  keys i j r r' hi hj := h.keys i j r r' (hg ▸ hi) (hg ▸ hj)
  sends k wr hk := plan.send_extends he (h.sends k wr (hs ▸ hk))
  recvs k recv hk := plan.recv_extends he (h.recvs k recv (hr ▸ hk))
  regions region hm := h.regions region (hg ▸ hm)

theorem Kept.digests_upd (h : plan.Kept l) {op : VOp} (ho : plan.allows l op) (a : op.Ans) :
    ∀ chunks ∈ (l.upd op a).digests, plan.digest (l.upd op a) chunks := by
  have he := Local.extends_upd l op a
  intro chunks hm
  refine plan.digest_extends he ?_
  cases op with
  | logDigest count length chunks' =>
    rcases List.mem_append.1 hm with hm | hm
    · exact h.digests chunks hm
    · obtain rfl := List.mem_singleton.1 hm
      exact ho
  | postSend wr | postRecv wr =>
    refine h.digests chunks ?_
    by_cases ha : a = (0 : Int)
    · simpa only [Local.upd, if_pos ha] using hm
    · simpa only [Local.upd, if_neg ha] using hm
  | regMr access p len => cases a <;> exact h.digests chunks hm
  | malloc bytes => cases a <;> exact h.digests chunks hm
  | mallocRandom size => cases a <;> exact h.digests chunks hm
  | _ => exact h.digests chunks hm

theorem Kept.stores_upd (h : plan.Kept l) {op : VOp} (ho : plan.allows l op) (a : op.Ans) :
    ∀ k s, (l.upd op a).stores[k]? = some s → plan.store (l.upd op a) k s := by
  intro k s hk
  refine plan.store_extends (Local.extends_upd l op a) ?_
  by_cases hop : ∃ p bytes, op = .store p bytes
  · obtain ⟨p, bytes, rfl⟩ := hop
    rcases getElem?_concat.1 hk with hk | ⟨rfl, rfl⟩
    · exact h.stores k s hk
    · exact ho
  · rw [l.stores_upd (fun p bytes he => hop ⟨p, bytes, he⟩) a] at hk
    exact h.stores k s hk

theorem Kept.mem_stores (h : plan.Kept l) {s : Ptr × List UInt8} (hs : s ∈ l.stores) :
    ∃ k, plan.store l k s :=
  (List.getElem?_of_mem hs).imp fun k hk => h.stores k s hk

/-- A call the plan allows keeps the plan. -/
theorem Kept.upd (h : plan.Kept l) {op : VOp} (ho : plan.allows l op) {a : op.Ans}
    (hc : Contract l op a) :
    plan.Kept (l.upd op a) := by
  have he := Local.extends_upd l op a
  have hd := h.digests_upd ho a
  have hst := h.stores_upd ho a
  cases op with
  | postSend wr =>
    by_cases ha : a = (0 : Int)
    · constructor
      · intro k wr' hk
        simp only [Local.upd, if_pos ha] at hk
        refine plan.send_extends he ?_
        rcases getElem?_concat.1 hk with hk | ⟨rfl, rfl⟩
        · exact h.sends k wr' hk
        · exact ho
      · intro k recv hk
        simp only [Local.upd, if_pos ha] at hk
        exact plan.recv_extends he (h.recvs k recv hk)
      · intro region hm
        simp only [Local.upd, if_pos ha] at hm
        exact h.regions region hm
      · exact hd
      · exact hst
      · simp only [Local.upd, if_pos ha]
        exact h.keys
    · simp only [Local.upd, if_neg ha]
      exact h
  | postRecv recv =>
    by_cases ha : a = (0 : Int)
    · constructor
      · intro k wr hk
        simp only [Local.upd, if_pos ha] at hk
        exact plan.send_extends he (h.sends k wr hk)
      · intro k recv' hk
        simp only [Local.upd, if_pos ha] at hk
        refine plan.recv_extends he ?_
        rcases getElem?_concat.1 hk with hk | ⟨rfl, rfl⟩
        · exact h.recvs k recv' hk
        · exact ho
      · intro region hm
        simp only [Local.upd, if_pos ha] at hm
        exact h.regions region hm
      · exact hd
      · exact hst
      · simp only [Local.upd, if_pos ha]
        exact h.keys
    · simp only [Local.upd, if_neg ha]
      exact h
  | regMr access p len =>
    cases a with
    | none => exact h
    | some mr =>
      constructor
      · exact fun k wr hk => plan.send_extends he (h.sends k wr hk)
      · exact fun k recv hk => plan.recv_extends he (h.recvs k recv hk)
      · intro region hm
        rcases List.mem_append.1 hm with hm | hm
        · exact h.regions region hm
        · obtain rfl := List.mem_singleton.1 hm
          exact ho.1
      · exact hd
      · exact hst
      · by_cases hm : access = .msgs
        · exact h.keys.append_msgs hm
        · exact h.keys.append (ho.2.resolve_left hm) ((hc mr rfl).2 hm)
  | malloc bytes =>
    cases a with
    | none => exact h
    | some p => exact h.of_eq he rfl rfl rfl rfl rfl
  | mallocRandom size =>
    cases a with
    | none => exact h
    | some p => exact h.of_eq he rfl rfl rfl rfl rfl
  | logDigest count length chunks | store p bytes =>
    exact ⟨fun k wr hk => plan.send_extends he (h.sends k wr hk),
      fun k recv hk => plan.recv_extends he (h.recvs k recv hk), h.regions, hd, hst, h.keys⟩
  | _ => exact h.of_eq he rfl rfl rfl rfl rfl

end Plan

/-! ## What may fail -/

/-- Whether every call succeeds, whether every completion does, and whether the process has to be
able to go on at every call. -/
structure Regime where
  calls : Prop
  completions : Prop
  live : Prop
  clean : live → calls ∧ completions

/-- Anything may fail. -/
def Regime.any : Regime := ⟨False, False, False, False.elim⟩
/-- No call fails; a completion may report an error. -/
def Regime.unfailing : Regime := ⟨True, False, False, False.elim⟩
/-- Nothing fails. -/
def Regime.successful : Regime := ⟨True, True, False, False.elim⟩
/-- Nothing fails, and no call waits for something that cannot come. -/
def Regime.steady : Regime := ⟨True, True, True, fun _ => ⟨trivial, trivial⟩⟩

namespace Local

/-- Everything posted has been polled, and only old regions are gone. -/
structure Idle (l : Local) : Prop where
  sends : l.sWcs.length = l.sq.length
  recvs : l.rWcs.length = l.rq.length
  dereged : ∀ j ∈ l.dereged, j < l.regions.length

/-- The call can be answered, and does not pull the rug from under what is still queued. -/
def Ready (l : Local) : VOp → Prop
  | .postSend wr => l.sWcs.length = l.sq.length ∧ ∃ mr, wr.mr = some mr ∧ mr.handle ∉ l.dereged
  | .postRecv recv => l.rWcs.length = l.rq.length ∧ ∃ mr, recv.mr = some mr ∧ mr.handle ∉ l.dereged
  | .pollSend num => num = 1 ∧ l.sWcs.length < l.sq.length
  | .pollRecv => l.rWcs.length < l.rq.length
  | .stackVar bytes => bytes.length < 2 ^ 64
  | .malloc bytes => bytes.length < 2 ^ 64
  | .mallocRandom size => size < 2 ^ 64
  | .regMr access _ _ => access = .msgs
  | .load p len => ∃ b block, p.block = some b ∧ l.blocks[b]? = some block ∧ block.base = p.addr ∧
      len ≤ block.bytes.length
  | .deregMr _ => l.Idle
  -- the peer may be at the block already
  | .store .. => False
  | _ => True

end Local

def Plan.ok (plan : Plan) (R : Regime) (l : Local) (op : VOp) : Prop :=
  plan.allows l op ∧ (R.live → l.Ready op)

/-- The completions a poll took are good. -/
def GoodWcs : (op : VOp) → op.Ans → Prop
  | .pollSend _, (p : Poll) => ∀ wc ∈ p.wcs, wc.success
  | .pollRecv, (p : Poll) => ∀ wc ∈ p.wcs, wc.success
  | _, _ => True

/-- What is read from a block that the `k`-th receive filled satisfies `D k`. -/
def Reads (D : Nat → List UInt8 → Prop) (l : Local) : (op : VOp) → op.Ans → Prop
  | .load p len, (data : List UInt8) => ∀ k, Arrived l k p len → D k data
  | _, _ => True

structure Admitted (R : Regime) (D : Nat → List UInt8 → Prop) (l : Local) (op : VOp) (a : op.Ans) :
    Prop where
  contract : Contract l op a
  reads : Reads D l op a
  calls : R.calls → Unfailing op a
  completions : R.completions → GoodWcs op a

/-- The monitor whose state is the history. -/
def tracking (R : Regime) (D : Nat → List UInt8 → Prop) : Monitor Verbs Local where
  upd := Local.upd
  adm := Admitted R D
  spins := ¬ R.live

namespace Tracking

variable {plan : Plan} {R : Regime} {D : Nat → List UInt8 → Prop}

theorem quiet : Quiet (tracking R D) (plan.ok R) where
  okLog _ _ := ⟨trivial, fun _ => trivial⟩
  updLog _ _ _ := rfl

/-! ### A block and its region -/

theorem regMr {l : Local} {access : Access} {p : Ptr} {len : Nat} {Q : Option Mr → Local → Prop}
    (hplan : plan.region access p ∧ (access = .msgs ∨ l.dereged = []))
    (hready : R.live → access = .msgs) (hnone : ¬ R.calls → Q none l)
    (hsome : ∀ mr : Mr, mr.handle = l.regions.length →
      Q (some mr) { l with regions := l.regions ++ [⟨access, p, len, mr.rkey⟩] }) :
    Safe (tracking R D) (plan.ok R) (dccsRegMr access p len) l Q := by
  refine quiet.dccsRegMr ⟨hplan, hready⟩ fun a ha => ?_
  cases a with
  | none =>
    refine hnone fun hc => ?_
    have := ha.calls hc
    simp [Unfailing] at this
  | some mr => exact hsome mr (ha.contract mr rfl).1

/-- A region for messages. -/
theorem regMsgs {l : Local} {p : Ptr} {len : Nat} {Q : Option Mr → Local → Prop}
    (hnone : ¬ R.calls → Q none l)
    (hsome : ∀ mr : Mr, mr.handle = l.regions.length →
      Q (some mr) { l with regions := l.regions ++ [⟨.msgs, p, len, mr.rkey⟩] }) :
    Safe (tracking R D) (plan.ok R) (dccsRegMr .msgs p len) l Q :=
  regMr ⟨plan.msgs p, .inl rfl⟩ (fun _ => rfl) hnone hsome

theorem stackVar {l : Local} {bytes : List UInt8} {Q : Ptr → Local → Prop}
    (hsize : R.live → bytes.length < 2 ^ 64)
    (hq : ∀ p : Ptr, p.block = some l.blocks.length →
      Q p { l with blocks := l.blocks ++ [⟨p.addr, bytes⟩] }) :
    Safe (tracking R D) (plan.ok R) (Call.stackVar bytes) l Q := by
  refine ⟨⟨trivial, hsize⟩, fun p hp => ?_⟩
  have := hp.contract
  exact hq p this.1

theorem malloc {l : Local} {bytes : List UInt8} {Q : Option Ptr → Local → Prop}
    (hsize : R.live → bytes.length < 2 ^ 64) (hnone : ¬ R.calls → Q none l)
    (hq : ∀ p : Ptr, p.block = some l.blocks.length →
      Q (some p) { l with blocks := l.blocks ++ [⟨p.addr, bytes⟩] }) :
    Safe (tracking R D) (plan.ok R) (Call.malloc bytes) l Q := by
  refine ⟨⟨trivial, hsize⟩, fun a ha => ?_⟩
  cases a with
  | none =>
    refine hnone fun hc => ?_
    have := ha.calls hc
    simp [Unfailing] at this
  | some p => exact hq p (ha.contract p rfl).1

theorem logError {l : Local} {format : String} {Q : Unit → Local → Prop} (hq : Q () l) :
    Safe (tracking R D) (plan.ok R) (Call.logError format) l Q := quiet.logError hq

/-- A call that the history does not record. -/
theorem untracked {α : Type} {l : Local} {op : VOp} {f : op.Ans → VProg α} {Q : α → Local → Prop}
    (hop : plan.allows l op) (hready : R.live → l.Ready op) (hupd : ∀ a, l.upd op a = l)
    (hf : ∀ a, Safe (tracking R D) (plan.ok R) (f a) l Q) :
    Safe (tracking R D) (plan.ok R) (.call op f) l Q := by
  refine ⟨⟨hop, hready⟩, fun a _ => ?_⟩
  rw [show (tracking R D).upd l op a = l from hupd a]
  exact hf a

/-! ### Messages -/

/-- What a poll for one completion can bring. -/
theorem of_poll {p : Poll} {Q : Int → List Wc → Prop} (hcalls : R.calls → p ≠ .failed)
    (hone : p.wcs.length ≤ 1) (hsuccess : R.completions → ∀ wc ∈ p.wcs, wc.success)
    (hbad : ¬ R.completions ∨ ¬ R.calls → ∀ wcs, (R.calls → wcs.length = 1) →
      (∀ wc ∈ wcs, ¬ wc.success) → Q (-1) wcs)
    (hgood : ∀ wc : Wc, wc.success → Q 1 [wc]) : Q p.rv p.wcs := by
  cases p with
  | failed =>
    refine hbad (.inr fun hc => ?_) [] (fun hc => ?_) (by simp)
    · exact hcalls hc rfl
    · exact absurd rfl (hcalls hc)
  | got wc rest =>
    obtain rfl : rest = [] := by simpa [Poll.wcs] using hone
    by_cases hs : wc.success
    · rw [Poll.rv_one_good hs]
      exact hgood wc hs
    · rw [Poll.rv_one_bad hs]
      exact hbad (.inl fun hc => hs (hsuccess hc wc (by simp [Poll.wcs]))) [wc] (fun _ => rfl)
        (by simpa using hs)

/-- A poll of the receive queue for one receive. -/
theorem recvComp {l : Local} {Q : Int → Local → Prop}
    (hready : R.live → l.rWcs.length < l.rq.length)
    (hbad : ¬ R.completions ∨ ¬ R.calls → ∀ wcs, (R.calls → wcs.length = 1) →
      (∀ wc ∈ wcs, ¬ wc.success) → Q (-1) { l with rWcs := l.rWcs ++ wcs })
    (hgood : ∀ wc : Wc, wc.success → Q 1 { l with rWcs := l.rWcs ++ [wc] }) :
    Safe (tracking R D) (plan.ok R) dccsRdmaRecvComp l fun rv l' => rv ≠ 0 ∧ Q rv l' := by
  refine quiet.dccsRdmaRecvComp ⟨trivial, hready⟩ (fun wc rest ha => ?_) fun p ha =>
    ⟨p.rv_ne_zero, ?_⟩
  · have hlen : (Poll.got wc rest).wcs.length ≤ 1 := ha.contract
    simpa [Poll.wcs] using hlen
  · exact of_poll (Q := fun rv wcs => Q rv { l with rWcs := l.rWcs ++ wcs }) ha.calls
      ha.contract ha.completions hbad hgood

/-- A poll of the send queue for one completion. -/
theorem sendComp {l : Local} {Q : Int → Local → Prop}
    (hready : R.live → l.sWcs.length < l.sq.length)
    (hbad : ¬ R.completions ∨ ¬ R.calls → ∀ wcs, (R.calls → wcs.length = 1) →
      (∀ wc ∈ wcs, ¬ wc.success) → Q (-1) { l with sWcs := l.sWcs ++ wcs })
    (hgood : ∀ wc : Wc, wc.success → Q 1 { l with sWcs := l.sWcs ++ [wc] }) :
    Safe (tracking R D) (plan.ok R) (dccsRdmaSendComp 1) l fun rv l' => rv ≠ 0 ∧ Q rv l' := by
  refine quiet.dccsRdmaSendComp_one ⟨trivial, fun hl => ⟨rfl, hready hl⟩⟩ fun p ha =>
    ⟨p.rv_ne_zero, ?_⟩
  exact of_poll (Q := fun rv wcs => Q rv { l with sWcs := l.sWcs ++ wcs }) ha.calls
    ha.contract ha.completions hbad hgood

/-- A post of the send queue. -/
theorem postSend {l : Local} {wr : SendWr} {Q : Int → Local → Prop}
    (hplan : plan.send l l.sq.length wr) (hready : R.live → l.Ready (.postSend wr))
    (hbad : ¬ R.calls → ∀ rv < 0, Q rv l) (hgood : Q 0 { l with sq := l.sq ++ [wr] }) :
    Safe (tracking R D) (plan.ok R) (dccsRdmaPost wr) l Q := by
  refine quiet.dccsRdmaPost ⟨hplan, hready⟩ fun rv ha => ?_
  rcases ha.contract with rfl | hneg
  · exact hgood
  · have hne : rv ≠ 0 := by omega
    have hl : (tracking R D).upd l (.postSend wr) rv = l := if_neg hne
    rw [hl]
    refine hbad (fun hc => ?_) rv hneg
    exact hne (ha.calls hc)

theorem postRecv {l : Local} {p : Ptr} {len : Nat} {mr : Option Mr} {Q : Int → Local → Prop}
    (hplan : plan.recv l l.rq.length ⟨p.addr, len, mr⟩)
    (hready : R.live → l.Ready (.postRecv ⟨p.addr, len, mr⟩)) (hbad : ¬ R.calls → ∀ rv < 0, Q rv l)
    (hgood : Q 0 { l with rq := l.rq ++ [⟨p.addr, len, mr⟩] }) :
    Safe (tracking R D) (plan.ok R) (dccsRdmaRecv p len mr) l Q := by
  refine quiet.dccsRdmaRecv ⟨hplan, hready⟩ fun rv ha => ?_
  rcases ha.contract with rfl | hneg
  · exact hgood
  · have hne : rv ≠ 0 := by omega
    have hl : (tracking R D).upd l (.postRecv ⟨p.addr, len, mr⟩) rv = l := if_neg hne
    rw [hl]
    refine hbad (fun hc => ?_) rv hneg
    exact hne (ha.calls hc)

/-- A message sent and waited for. -/
theorem sendStep {l : Local} {p : Ptr} {len : Nat} {mr : Option Mr} {e₁ e₂ : String}
    {Q : Int × Bool → Local → Prop}
    (hplan : plan.send l l.sq.length ⟨.Send, p.addr, len, mr, 0, 0, true⟩)
    (hready : R.live → l.Ready (.postSend ⟨.Send, p.addr, len, mr, 0, 0, true⟩))
    (hbad : ¬ R.completions ∨ ¬ R.calls → ∀ rv < 0, ∀ l', Q (rv, false) l')
    (hgood : ∀ wc : Wc, wc.success →
      Q (1, true) { l with sq := l.sq ++ [⟨.Send, p.addr, len, mr, 0, 0, true⟩], sWcs := l.sWcs ++ [wc] }) :
    Safe (tracking R D) (plan.ok R) (RdmaOpera.sendStep p len mr e₁ e₂) l Q := by
  rw [sendStep_eq]
  refine quiet.waitStep
    (postSend hplan hready (fun hc rv hneg => ⟨fun _ => hbad (.inr hc) rv hneg l, fun h0 => ?_⟩)
    ⟨fun hne => absurd rfl hne,
      fun _ => sendComp (fun hl => ?_) (fun hc wcs _ _ => hbad hc (-1) (by decide) _) hgood⟩)
  · exact absurd h0 hneg.ne
  · have hroom := (hready hl).1
    simp only [List.length_append, List.length_singleton]
    omega

/-- A message waited for. -/
theorem recvStep {l : Local} {p : Ptr} {len : Nat} {mr : Option Mr} {e₁ e₂ : String}
    {Q : Int × Bool → Local → Prop} (hplan : plan.recv l l.rq.length ⟨p.addr, len, mr⟩)
    (hready : R.live → l.Ready (.postRecv ⟨p.addr, len, mr⟩))
    (hbad : ¬ R.completions ∨ ¬ R.calls → ∀ rv < 0, ∀ l', Q (rv, false) l')
    (hgood : ∀ wc : Wc, wc.success →
      Q (1, true) { l with rq := l.rq ++ [⟨p.addr, len, mr⟩], rWcs := l.rWcs ++ [wc] }) :
    Safe (tracking R D) (plan.ok R) (RdmaOpera.recvStep p len mr e₁ e₂) l Q := by
  rw [recvStep_eq]
  refine quiet.waitStep
    (postRecv hplan hready (fun hc rv hneg => ⟨fun _ => hbad (.inr hc) rv hneg l, fun h0 => ?_⟩)
    ⟨fun hne => absurd rfl hne,
      fun _ => recvComp (fun hl => ?_) (fun hc wcs _ _ => hbad hc (-1) (by decide) _) hgood⟩)
  · exact absurd h0 hneg.ne
  · have hroom := (hready hl).1
    simp only [List.length_append, List.length_singleton]
    omega

end Tracking

end RdmaOpera
