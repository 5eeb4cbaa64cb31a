import RdmaOpera.ExecRun
import RdmaOpera.Progress

/-!
# Processes to which nothing fails

Rules for the parts that `rdma_exec` and `control_exec` have in common, whatever is asked of their
calls (`ok`): the connection, messages that are waited for, and regions for them. A call is `Due`
when it comes in its turn: what is posted lies in a region that is registered, what is polled for
has been posted, a region is given back when nothing is queued, and a program writes to its blocks
before it posts anything.
-/

namespace RdmaOpera

open Lib Prog

/-- Calls that hash nothing. -/
def Undigested : VOp → Prop
  | .logDigest .. => False
  | _ => True

namespace Local

/-- The call comes in its turn. -/
def Due (l : Local) : VOp → Prop
  | .postSend wr => ∃ mr, wr.mr = some mr ∧ mr.handle ∉ l.dereged
  | .postRecv recv => ∃ mr, recv.mr = some mr ∧ mr.handle ∉ l.dereged
  | .pollSend _ => l.sWcs.length < l.signaled
  | .pollRecv => l.rWcs.length < l.rq.length
  | .deregMr _ => l.Drained
  -- nobody can be at the block yet
  | .store .. => l.sq = [] ∧ l.rq = [] ∧ l.loads = []
  | _ => True

theorem signaled_eq {l : Local} (h : ∀ wr ∈ l.sq, wr.signaled) : l.signaled = l.sq.length := by
  rw [signaled, List.filter_eq_self.2 h]

/-- While everything is signaled, a ready call comes in its turn. -/
theorem Ready.due {l : Local} {op : VOp} (h : l.Ready op) (hsig : ∀ wr ∈ l.sq, wr.signaled) :
    l.Due op := by
  have hall := signaled_eq hsig
  cases op with
  | postSend wr => exact h.2
  | postRecv recv => exact h.2
  | pollSend num =>
    show l.sWcs.length < l.signaled
    rw [hall]
    exact h.2
  | pollRecv => exact h
  | deregMr mr =>
    exact ⟨h.sends.trans hall.symm, fun wr hwr => hsig wr (List.mem_of_getElem? hwr), h.recvs⟩
  | store p bytes => exact h.elim
  | _ => trivial

/-- Everything stays signaled. -/
theorem signaled_upd {l : Local} (hsig : ∀ wr ∈ l.sq, wr.signaled) {op : VOp}
    (hop : ∀ wr, op = .postSend wr → wr.signaled) (a : op.Ans) :
    ∀ wr ∈ (l.upd op a).sq, wr.signaled := by
  cases op with
  | postSend wr =>
    intro wr' hmem
    by_cases ha : a = (0 : Int)
    · simp only [upd, if_pos ha] at hmem
      rcases List.mem_append.1 hmem with hmem | hmem
      · exact hsig wr' hmem
      · rw [List.mem_singleton.1 hmem]
        exact hop wr rfl
    · simp only [upd, if_neg ha] at hmem
      exact hsig wr' hmem
  | postRecv recv =>
    by_cases ha : a = (0 : Int)
    · simpa only [upd, if_pos ha] using hsig
    · simpa only [upd, if_neg ha] using hsig
  | malloc bytes => cases a <;> exact hsig
  | mallocRandom size => cases a <;> exact hsig
  | regMr access p len => cases a <;> exact hsig
  | _ => exact hsig

/-- What has been given back does not come again. -/
theorem dereged_upd (l : Local) (op : VOp) (a : op.Ans) {j : Nat} (hj : j ∈ l.dereged) :
    j ∈ (l.upd op a).dereged := by
  cases op with
  | deregMr mr => exact List.mem_append_left _ hj
  | malloc bytes => cases a <;> exact hj
  | mallocRandom size => cases a <;> exact hj
  | regMr access p len => cases a <;> exact hj
  | postSend wr =>
    simp only [Local.upd]
    split <;> exact hj
  | postRecv recv =>
    simp only [Local.upd]
    split <;> exact hj
  | _ => exact hj

/-- Only a digest is recorded as one. -/
theorem digests_upd (l : Local) {op : VOp} (hop : Undigested op) (a : op.Ans) :
    (l.upd op a).digests = l.digests := by
  cases op with
  | logDigest count length chunks => exact hop.elim
  | malloc bytes => cases a <;> rfl
  | mallocRandom size => cases a <;> rfl
  | regMr access p len => cases a <;> rfl
  | postSend wr =>
    simp only [Local.upd]
    split <;> rfl
  | postRecv recv =>
    simp only [Local.upd]
    split <;> rfl
  | _ => rfl

/-- A ready call can be answered. -/
theorem Ready.answerable {l : Local} {op : VOp} (h : l.Ready op) :
    ∃ a, (tracking .steady fun _ _ => True).adm l op a := by
  have hfresh : ∀ {size : Nat}, size < 2 ^ 64 → Fresh l ⟨some l.blocks.length, 1⟩ size :=
    fun hlt => ⟨rfl, Nat.one_pos, by simp only; omega⟩
  cases op with
  | stackVar bytes => exact ⟨_, hfresh h, trivial, fun _ => trivial, fun _ => trivial⟩
  | malloc bytes =>
    refine ⟨some ⟨some l.blocks.length, 1⟩, fun p hp => ?_, trivial, fun _ => rfl, fun _ => trivial⟩
    rw [← Option.some.inj hp]
    exact hfresh h
  | mallocRandom size =>
    refine ⟨some (⟨some l.blocks.length, 1⟩, List.replicate size 0), fun p bytes hp => ?_, trivial,
      fun _ => rfl, fun _ => trivial⟩
    cases hp
    exact ⟨hfresh h, List.length_replicate⟩
  | regMr access p len =>
    refine ⟨some ⟨l.regions.length, 0⟩, fun mr hmr => ?_, trivial, fun _ => rfl, fun _ => trivial⟩
    cases hmr
    exact ⟨rfl, fun hne => absurd h hne⟩
  | postSend wr => exact ⟨(0 : Int), .inl rfl, trivial, fun _ => rfl, fun _ => trivial⟩
  | postRecv recv => exact ⟨(0 : Int), .inl rfl, trivial, fun _ => rfl, fun _ => trivial⟩
  | pollSend num =>
    obtain ⟨rfl, -⟩ := h
    exact ⟨.got .good [], Nat.le_refl 1, trivial, fun _ => nofun, fun _ => by simp [GoodWcs, Poll.wcs]⟩
  | pollRecv =>
    exact ⟨.got .good [], Nat.le_refl 1, trivial, fun _ => nofun, fun _ => by simp [GoodWcs, Poll.wcs]⟩
  | load p len =>
    exact ⟨([] : List UInt8), trivial, fun _ _ => trivial, fun _ => trivial, fun _ => trivial⟩
  | cm c => exact ⟨(0 : Int), trivial, trivial, fun _ => rfl, fun _ => trivial⟩
  | getCycles => exact ⟨(0 : UInt64), trivial, trivial, fun _ => trivial, fun _ => trivial⟩
  | waitUntil target =>
    exact ⟨([], (0 : UInt64)), trivial, trivial, fun _ => trivial, fun _ => trivial⟩
  | _ => exact ⟨(), trivial, trivial, fun _ => trivial, fun _ => trivial⟩

end Local

/-- The addresses of requests that fit fit as well. -/
theorem mrInfoSize_le : mrInfoSize ≤ RdmaExec.requestSize := by decide

/-- Calls the history does not record are never kept back. -/
def Lenient (ok : Local → VOp → Prop) : Prop := ∀ l op, Untraced op → ok l op

namespace Steady

variable {ok : Local → VOp → Prop} {D : Nat → List UInt8 → Prop} {l : Local} {α : Type}
  (hok : Lenient ok)
include hok

theorem quiet : Quiet (tracking .steady D) ok where
  okLog l _ := hok l _ trivial
  updLog _ _ _ := rfl

theorem untraced_bind {op : VOp} (hop : Untraced op) {f : op.Ans → VProg α} {Q : α → Local → Prop}
    (hf : ∀ a, Safe (tracking .steady D) ok (f a) l Q) :
    Safe (tracking .steady D) ok (Prog.op (S := Verbs) op >>= f) l Q := by
  refine ⟨hok l op hop, fun a _ => ?_⟩
  have hupd : l.upd op a = l := by cases op <;> first | rfl | exact hop.elim
  show Safe (tracking .steady D) ok (f a) (l.upd op a) Q
  rw [hupd]
  exact hf a

/-! ## The connection -/

/-- A call of the connection manager, and the test of its result. -/
theorem cm {c : CmCall} {text : String} {f : VProg Int} {g : Int → VProg Int} {Q : Int → Local → Prop}
    (hf : Safe (tracking .steady D) ok f l Q) :
    Safe (tracking .steady D) ok (do
      let rv ← orPerror (Call.cm c) text
      if rv ≠ 0 then g rv else f) l Q := by
  have hcm : Safe (tracking .steady D) ok (orPerror (Call.cm c) text) l
      fun rv l' => rv = 0 ∧ l' = l :=
    (quiet hok).orPerror ⟨hok l _ trivial, fun a ha => ⟨ha.calls trivial, rfl⟩⟩
  refine hcm.bind ?_
  rintro _ _ ⟨rfl, rfl⟩
  exact safe_ite.2 ⟨fun hne => absurd rfl hne, fun _ => hf⟩

theorem connect (params : DccsParameters) :
    Safe (tracking .steady D) ok (RdmaExec.connect params) l fun rv l' => rv = 0 ∧ l' = l := by
  have hfree : Safe (tracking .steady D) ok
      (do Call.cmRelease .freeaddrinfo; pure 0 : VProg Int) l fun rv l' => rv = 0 ∧ l' = l :=
    untraced_bind hok (by trivial) fun _ => ⟨rfl, rfl⟩
  unfold RdmaExec.connect
  cases RdmaExec.roleOf params with
  | client => exact cm hok (cm hok (cm hok (cm hok hfree)))
  | server => exact cm hok (cm hok (cm hok (cm hok (cm hok hfree))))

theorem outDisconnect (params : DccsParameters) (rv : Int) :
    Safe (tracking .steady D) ok (RdmaExec.outDisconnect params rv) l
      fun rv' l' => rv' = rv ∧ l' = l := by
  unfold RdmaExec.outDisconnect
  cases RdmaExec.roleOf params with
  | client => exact untraced_bind hok (by trivial) fun _ =>
      untraced_bind hok (by trivial) fun _ => ⟨rfl, rfl⟩
  | server => exact untraced_bind hok (by trivial) fun _ =>
      untraced_bind hok (by trivial) fun _ => untraced_bind hok (by trivial) fun _ => ⟨rfl, rfl⟩

/-! ## Messages -/

/-- A region for a message. -/
theorem regMsgs {p : Ptr} {len : Nat} {Q : Option Mr → Local → Prop}
    (hreg : ok l (.regMr .msgs p len))
    (hsome : ∀ mr : Mr, mr.handle = l.regions.length →
      Q (some mr) { l with regions := l.regions ++ [⟨.msgs, p, len, mr.rkey⟩] }) :
    Safe (tracking .steady D) ok (dccsRegMr .msgs p len) l Q := by
  refine (quiet hok).dccsRegMr hreg fun a ha => ?_
  cases a with
  | none => exact absurd (ha.calls trivial) (by simp [Unfailing])
  | some mr => exact hsome mr (ha.contract mr rfl).1

/-- A poll for a request that leaves a completion. -/
theorem sendComp {Q : Int → Local → Prop} (hpoll : ok l (.pollSend 1))
    (hgood : ∀ wc : Wc, Q 1 { l with sWcs := l.sWcs ++ [wc] }) :
    Safe (tracking .steady D) ok (dccsRdmaSendComp 1) l fun rv l' => rv ≠ 0 ∧ Q rv l' := by
  refine (quiet hok).dccsRdmaSendComp_one hpoll fun p ha => ⟨p.rv_ne_zero, ?_⟩
  refine Tracking.of_poll (R := .steady)
    (Q := fun rv wcs => Q rv { l with sWcs := l.sWcs ++ wcs }) ha.calls ha.contract ha.completions
    (fun hc => ?_) fun wc _ => hgood wc
  exact hc.elim (fun hc => absurd trivial hc) fun hc => absurd trivial hc

theorem recvComp {Q : Int → Local → Prop} (hpoll : ok l .pollRecv)
    (hgood : ∀ wc : Wc, Q 1 { l with rWcs := l.rWcs ++ [wc] }) :
    Safe (tracking .steady D) ok dccsRdmaRecvComp l fun rv l' => rv ≠ 0 ∧ Q rv l' := by
  refine (quiet hok).dccsRdmaRecvComp hpoll (fun wc rest ha => ?_) fun p ha => ⟨p.rv_ne_zero, ?_⟩
  · have hlen : (Poll.got wc rest).wcs.length ≤ 1 := ha.contract
    simpa [Poll.wcs] using hlen
  · refine Tracking.of_poll (R := .steady)
      (Q := fun rv wcs => Q rv { l with rWcs := l.rWcs ++ wcs }) ha.calls ha.contract
      ha.completions (fun hc => ?_) fun wc _ => hgood wc
    exact hc.elim (fun hc => absurd trivial hc) fun hc => absurd trivial hc

/-- A message sent and waited for. -/
theorem sendStep {p : Ptr} {len : Nat} {mr : Option Mr} {e₁ e₂ : String} {Q : Int × Bool → Local → Prop}
    (hpost : ok l (.postSend ⟨.Send, p.addr, len, mr, 0, 0, true⟩))
    (hpoll : ok { l with sq := l.sq ++ [⟨.Send, p.addr, len, mr, 0, 0, true⟩] } (.pollSend 1))
    (hgood : ∀ wc : Wc, Q (1, true) { l with
      sq := l.sq ++ [⟨.Send, p.addr, len, mr, 0, 0, true⟩], sWcs := l.sWcs ++ [wc] }) :
    Safe (tracking .steady D) ok (RdmaOpera.sendStep p len mr e₁ e₂) l Q := by
  rw [sendStep_eq]
  refine (quiet hok).waitStep ((quiet hok).dccsRdmaPost hpost fun rv ha => ?_)
  obtain rfl : rv = 0 := ha.calls trivial
  exact ⟨fun hne => absurd rfl hne, fun _ => sendComp hok hpoll hgood⟩

/-- A message waited for. -/
theorem recvStep {p : Ptr} {len : Nat} {mr : Option Mr} {e₁ e₂ : String} {Q : Int × Bool → Local → Prop}
    (hpost : ok l (.postRecv ⟨p.addr, len, mr⟩))
    (hpoll : ok { l with rq := l.rq ++ [⟨p.addr, len, mr⟩] } .pollRecv)
    (hgood : ∀ wc : Wc, Q (1, true) { l with
      rq := l.rq ++ [⟨p.addr, len, mr⟩], rWcs := l.rWcs ++ [wc] }) :
    Safe (tracking .steady D) ok (RdmaOpera.recvStep p len mr e₁ e₂) l Q := by
  rw [recvStep_eq]
  refine (quiet hok).waitStep ((quiet hok).dccsRdmaRecv hpost fun rv ha => ?_)
  obtain rfl : rv = 0 := ha.calls trivial
  exact ⟨fun hne => absurd rfl hne, fun _ => recvComp hok hpoll hgood⟩

/-- A message lies on the stack. -/
theorem message {bytes : List UInt8} {message : Ptr → VProg Int} {text : String}
    {fail exit : Int → VProg α} {Q : α → Local → Prop} (hvar : ok l (.stackVar bytes))
    (hmessage : ∀ p : Ptr, p.block = some l.blocks.length → Safe (tracking .steady D) ok (message p)
      { l with blocks := l.blocks ++ [⟨p.addr, bytes⟩] } fun rv l' => 0 ≤ rv ∧
        Safe (tracking .steady D) ok (exit rv) l' Q) :
    Safe (tracking .steady D) ok (do
      let buf ← Call.stackVar bytes
      let rv ← message buf
      if rv < 0 then do
        Call.logError text
        Call.leave buf
        fail rv
      else do
        Call.leave buf
        exit rv) l Q := by
  refine safe_bind.2 ⟨hvar, fun buf hbuf => Safe.bind (hmessage buf hbuf.contract.1) ?_⟩
  rintro rv l' ⟨h0, hexit⟩
  exact safe_ite.2 ⟨fun hneg => absurd h0 (Int.not_le.2 hneg),
    fun _ => untraced_bind hok (by trivial) fun _ => hexit⟩

/-! ## Buffers -/

/-- The groups `gs` have been allocated, and nothing else has happened since `l₀`. -/
structure Grown (params : DccsParameters) (l₀ : Local) (gs : List Grant) (l : Local) : Prop where
  blocks : l.blocks.length = l₀.blocks.length + gs.length
  regions : l.regions.length = l₀.regions.length + gs.length
  groups : ∀ (j : Nat) (g : Grant), gs[j]? = some g →
    Group params l (l₀.blocks.length + j) g.base g.mr
  extends_ : l₀.Extends l
  rest : l = { l₀ with blocks := l.blocks, regions := l.regions }

omit hok in
theorem grown_nil (params : DccsParameters) (l : Local) : Grown params l [] l :=
  ⟨rfl, rfl, by simp, .refl l, rfl⟩

theorem allocateGroup {params : DccsParameters} {l₀ : Local} {gs : List Grant}
    (hsame : l₀.regions.length = l₀.blocks.length) (hg : Grown params l₀ gs l)
    (hblock : ok l (.mallocRandom (bufferLength params)))
    (hregion : ∀ (p : Ptr) (bytes : List UInt8), p.block = some (l₀.blocks.length + gs.length) →
      ok { l with blocks := l.blocks ++ [⟨p.addr, bytes⟩] }
        (.regMr (accessOf params.verb) p (bufferLength params))) :
    Safe (tracking .steady D) ok (RdmaOpera.allocateGroup params) l fun g l' =>
      Grown params l₀ (gs ++ [g]) l' := by
  refine safe_bind.2 ⟨hblock, fun a ha => ?_⟩
  cases a with
  | none => exact absurd (ha.calls trivial) (by simp [Unfailing])
  | some pair =>
    obtain ⟨p, bytes⟩ := pair
    obtain ⟨⟨hp, hlo, hhi⟩, hlen⟩ := ha.contract p bytes rfl
    have hp : p.block = some l.blocks.length := hp
    rw [hg.blocks] at hp
    refine safe_bind.2 ((quiet hok).dccsRegMr (hregion p bytes hp) fun a ha => ?_)
    cases a with
    | none => exact absurd (ha.calls trivial) (by simp [Unfailing])
    | some mr =>
      let l' : Local :=
        { l with
          blocks := l.blocks ++ [⟨p.addr, bytes⟩]
          regions := l.regions ++ [⟨accessOf params.verb, p, bufferLength params, mr.rkey⟩] }
      have hhandle : mr.handle = l₀.blocks.length + gs.length := by
        rw [← hsame, ← hg.regions]
        exact (ha.contract mr rfl).1
      have he : l.Extends l' :=
        { Local.Extends.refl l with
          blocks := List.prefix_append _ _
          regions := List.prefix_append _ _ }
      show Grown params l₀ (gs ++ [⟨some (p, bytes), some mr⟩]) l'
      refine ⟨?_, ?_, fun j g hj => ?_, hg.extends_.trans he, ?_⟩
      · simp [l', hg.blocks, Nat.add_assoc]
      · simp [l', hg.regions, Nat.add_assoc]
      · rcases getElem?_concat.1 hj with hj | ⟨rfl, rfl⟩
        · exact (hg.groups j g hj).extends he
        · refine ⟨hp, ⟨bytes, ?_, hlen⟩, ⟨hlo, hhi⟩, mr, rfl, hhandle, ?_⟩
          · show (l.blocks ++ [_])[_]? = _
            rw [← hg.blocks]
            simp [Grant.base]
          · show (l.regions ++ [_])[_]? = _
            rw [← hsame, ← hg.regions]
            simp [Grant.base]
      · show ({ l with blocks := _, regions := _ } : Local) = _
        rw [hg.rest]

/-- **`allocate_buffer`**, wherever a process calls it. -/
theorem allocateBuffer {params : DccsParameters} {requests : List DccsRequest} (h : Accepted params)
    (hlen : requests.length = params.count) (hsame : l.regions.length = l.blocks.length)
    (hblock : ∀ l', ok l' (.mallocRandom (bufferLength params)))
    (hregion : ∀ (l' : Local) (p : Ptr) (j : Nat), j < params.mrCount →
      l'.regions.length = l.regions.length + j → l'.dereged = l.dereged →
      p.block = some (l.blocks.length + j) →
        ok l' (.regMr (accessOf params.verb) p (bufferLength params))) :
    Safe (tracking .steady D) ok (RdmaOpera.allocateBuffer requests params) l fun res l' =>
      res.1 = 0 ∧ ∃ gs, gs.length = params.mrCount ∧ Grown params l gs l' ∧
        Filled params requests gs params.count res.2 := by
  refine safe_allocateBuffer h hlen (Grown params l) (grown_nil params l) fun gs l' hgs hg => ?_
  refine allocateGroup hok hsame hg (hblock l') fun p bytes hp => ?_
  refine hregion _ p gs.length hgs hg.regions ?_ hp
  show l'.dereged = l.dereged
  rw [hg.rest]

omit hok in
/-- **`print_sha1sum`** reads the requests and hashes them. -/
theorem printSha1sum {requests : List DccsRequest} {count : Nat} (hcount : 0 < count)
    (hload : ∀ chunks, chunks.length < count → ok { l with loads := l.loads ++ chunks }
      (.load (reqAt requests chunks.length).buf (reqAt requests 0).length))
    (hdigest : ∀ chunks, ok { l with loads := l.loads ++ chunks }
      (.logDigest count (reqAt requests 0).length chunks)) :
    Safe (tracking .steady D) ok (RdmaOpera.printSha1sum requests count) l fun _ l' =>
      ∃ chunks, chunks.length = count ∧
        l' = { l with loads := l.loads ++ chunks, digests := l.digests ++ [chunks] } := by
  refine safe_ite.2 ⟨fun h0 => absurd h0 hcount.ne', fun _ => ?_⟩
  refine Safe.bind (safe_forN (fun n chunks l' => chunks.length = n ∧
    l' = { l with loads := l.loads ++ chunks }) ⟨rfl, by simp⟩ ?_) ?_
  · rintro n chunks _ hn ⟨rfl, rfl⟩
    refine ⟨hload chunks hn, fun data _ => ⟨by simp, ?_⟩⟩
    show ({ l with loads := l.loads ++ chunks ++ [data] } : Local) = _
    rw [List.append_assoc]
  · rintro chunks _ ⟨hlength, rfl⟩
    exact ⟨hdigest chunks, fun _ _ => ⟨chunks, hlength, rfl⟩⟩

/-- **`deallocate_buffer`** gives the regions of the requests back. -/
theorem deallocateBuffer {params : DccsParameters} {requests : List DccsRequest} (h : Accepted params)
    (hmr : ∀ i < params.count, (reqAt requests i).mr.isSome)
    (hdereg : ∀ i < params.count, ∀ mr, (reqAt requests i).mr = some mr → ∀ handles,
      ok { l with dereged := l.dereged ++ handles } (.deregMr mr)) :
    Safe (tracking .steady D) ok (RdmaOpera.deallocateBuffer requests params) l fun _ l' =>
      ∃ handles, l' = { l with dereged := l.dereged ++ handles } := by
  refine safe_deallocateBuffer h (fun _ l' => ∃ handles, l' = { l with dereged := l.dereged ++ handles })
    ⟨[], by rw [List.append_nil]⟩ ?_
  rintro g _ hg ⟨handles, rfl⟩
  have hfirst := h.first_lt hg
  obtain ⟨mr, hsome⟩ := Option.isSome_iff_exists.1 (hmr _ hfirst)
  rw [deallocateGroup, hsome]
  refine ⟨hdereg _ hfirst mr hsome handles, fun _ _ => ⟨hok _ _ trivial, fun _ _ => ?_⟩⟩
  exact ⟨handles ++ [mr.handle], by simp [tracking, Local.upd]⟩

omit hok

/-- A range of a group lies in its block. -/
theorem served_load {params : DccsParameters} {g : Nat} {bufBase : Ptr} {mr : Option Mr}
    (h : Group params l g bufBase mr) {off len : Nat} (hle : off + len ≤ bufferLength params) :
    l.Served (.load (bufBase.add off) len) := by
  obtain ⟨bytes, hblock, hlen⟩ := h.block
  refine ⟨_, _, h.ptr, hblock, Nat.le_add_right _ _, ?_⟩
  show bufBase.addr + _ + _ ≤ bufBase.addr + bytes.length
  omega

/-! ## Parts that poll for each request -/

/-- Only regions from `m` on are given back. -/
def Late (m : Nat) (op : VOp) : Prop := ∀ mr, op = .deregMr mr → m ≤ mr.handle

/-- By the end no other region is gone, and what is given back does not come again. -/
theorem late {plan : Plan} {p : VProg α} {m : Nat} {Q : α → Local → Prop}
    (h : Safe (tracking .steady fun _ _ => True) (plan.ok .steady) p l Q)
    (hQ : ∀ a t, Q a t → ∀ j ∈ t.dereged, m ≤ j) :
    Safe (tracking .steady D) (fun l op => plan.ok .steady l op ∧ Late m op) p l Q := by
  obtain ⟨-, hlate⟩ := h.anticipate (F := fun l => ∀ j ∈ l.dereged, m ≤ j)
    (fun hspin => hspin trivial) (fun _ _ hok => (hok.2 trivial).answerable)
    (fun l op a hF j hj => hF j (Local.dereged_upd l op a hj)) hQ
  refine hlate.relax rfl (fun _ _ _ ha => ⟨ha.contract, ?_, ha.calls, ha.completions⟩) id
    fun l op hok => ⟨hok.1, ?_⟩
  · rename_i op a
    cases op <;> first | exact fun _ _ => trivial | trivial
  · rintro mr rfl
    exact hok.2 () ⟨trivial, trivial, fun _ => trivial, fun _ => trivial⟩ _
      (List.mem_append_right _ (List.mem_singleton_self _))

/-- What the plan says of such a part, in the terms of the rest. -/
theorem timely {plan : Plan} (hplan : ∀ l k wr, plan.send l k wr → wr.signaled) {p : VProg α} {m : Nat}
    {Q : α → Local → Prop} (hsig : ∀ wr ∈ l.sq, wr.signaled)
    (h : Safe (tracking .steady D) (fun l op => plan.ok .steady l op ∧ Late m op) p l Q) :
    Safe (tracking .steady D)
      (fun l op => plan.allows l op ∧ l.Served op ∧ l.Due op ∧ Late m op) p l
      fun a t => Q a t ∧ ∀ wr ∈ t.sq, wr.signaled := by
  refine h.invariant hsig (fun l op hl hok => ?_) ?_
  · have hready := hok.1.2 trivial
    exact ⟨hok.1.1, hready.served, hready.due hl, hok.2⟩
  · rintro l op a hl ⟨hok, -⟩ -
    refine Local.signaled_upd hl ?_ a
    rintro wr rfl
    exact hplan _ _ _ hok.1

end Steady

end RdmaOpera
