import RdmaOpera.Plan

/-!
# The two sides of the exchange of memory regions

`get_remote_mr_info` and `send_local_mr_info` set up the same two blocks, the array and then the
count (`Staged`), and pass them on in the other order. One rule for each side: what it posts, what
it leaves in the history of its process (`Exchanged`), and what a result that is not negative means.
What the blocks received into hold is left open (`D`).
-/

namespace RdmaOpera

open Lib Prog

/-- The array and the count are in place, each in a region of its own. -/
structure Staged (l l' : Local) (mrCount mrArray : Mr) (var mrInfos : Ptr)
    (count array : List UInt8) : Prop where
  ext : l.Extends l'
  count : Buffer l' mrCount var (l.blocks.length + 1) count
  array : Buffer l' mrArray mrInfos l.blocks.length array
  blocks : l'.blocks.length = l.blocks.length + 2
  regions : l'.regions.length = l.regions.length + 2
  countHandle : mrCount.handle = l.regions.length
  arrayHandle : mrArray.handle = l.regions.length + 1
  dereged : l'.dereged = l.dereged
  sq : l'.sq = l.sq
  rq : l'.rq = l.rq
  sWcs : l'.sWcs = l.sWcs
  rWcs : l'.rWcs = l.rWcs
  loads : l'.loads = l.loads

theorem staged_of (l : Local) {p v : Ptr} {mrCount mrArray : Mr} {count array : List UInt8}
    (hp : p.block = some l.blocks.length) (hv : v.block = some (l.blocks.length + 1))
    (hc : mrCount.handle = l.regions.length) (ha : mrArray.handle = l.regions.length + 1) :
    Staged l { l with
      blocks := (l.blocks ++ [⟨p.addr, array⟩]) ++ [⟨v.addr, count⟩]
      regions := (l.regions ++ [⟨.msgs, v, count.length, mrCount.rkey⟩]) ++
        [⟨.msgs, p, array.length, mrArray.rkey⟩] }
      mrCount mrArray v p count array where
  ext := { Local.Extends.refl l with
    blocks := (List.prefix_append _ _).trans (List.prefix_append _ _)
    regions := (List.prefix_append _ _).trans (List.prefix_append _ _) }
  count := ⟨hv, by simp, .msgs, mrCount.rkey, by simp [hc]⟩
  array := ⟨hp, by simp, .msgs, mrArray.rkey, by simp [ha]⟩
  blocks := by simp
  regions := by simp
  countHandle := hc
  arrayHandle := ha
  dereged := rfl
  sq := rfl
  rq := rfl
  sWcs := rfl
  rWcs := rfl
  loads := rfl

/-- One side is through. -/
structure Exchanged (l l' : Local) : Prop where
  ext : l.Extends l'
  blocks : l'.blocks.length = l.blocks.length + 2
  regions : l'.regions.length = l.regions.length + 2
  dereged : l'.dereged = l.dereged ++ [l.regions.length + 1] ++ [l.regions.length]

/-- The new regions are registered. -/
theorem Staged.fresh {l l₁ : Local} {mrCount mrArray : Mr} {var mrInfos : Ptr}
    {count array : List UInt8} (hs : Staged l l₁ mrCount mrArray var mrInfos count array)
    (hidle : l.Idle) :
    mrCount.handle ∉ l₁.dereged ∧ mrArray.handle ∉ l₁.dereged := by
  constructor
  · intro hj
    rw [hs.dereged, hs.countHandle] at hj
    have := hidle.dereged _ hj
    omega
  · intro hj
    rw [hs.dereged, hs.arrayHandle] at hj
    have := hidle.dereged _ hj
    omega

theorem Staged.idle {l l₁ l' : Local} {mrCount mrArray : Mr} {var mrInfos : Ptr}
    {count array : List UInt8} (hs : Staged l l₁ mrCount mrArray var mrInfos count array)
    (hidle : l.Idle) (hsends : l'.sWcs.length = l'.sq.length)
    (hrecvs : l'.rWcs.length = l'.rq.length) (hr : l'.regions = l₁.regions)
    (hd : l'.dereged = l₁.dereged) : l'.Idle := by
  refine ⟨hsends, hrecvs, fun j hj => ?_⟩
  rw [hd, hs.dereged] at hj
  have := hidle.dereged j hj
  rw [hr, hs.regions]
  omega

theorem Staged.exchanged {l l₁ l' : Local} {mrCount mrArray : Mr} {var mrInfos : Ptr}
    {count array : List UInt8} (hs : Staged l l₁ mrCount mrArray var mrInfos count array)
    (he : l₁.Extends l') (hb : l'.blocks = l₁.blocks) (hr : l'.regions = l₁.regions)
    (hd : l'.dereged = l₁.dereged) :
    Exchanged l { l' with dereged := l'.dereged ++ [mrArray.handle] ++ [mrCount.handle] } where
  ext := hs.ext.trans (he.trans { Local.Extends.refl l' with })
  blocks := by rw [← hs.blocks, ← hb]
  regions := by rw [← hs.regions, ← hr]
  dereged := by rw [hs.arrayHandle, hs.countHandle, hd, hs.dereged]

theorem Exchanged.dereged_lt {l l' : Local} (h : Exchanged l l')
    (hl : ∀ j ∈ l.dereged, j < l.regions.length) :
    ∀ j ∈ l'.dereged, j < l'.regions.length := by
  intro j hj
  rw [h.dereged, List.mem_append, List.mem_append, List.mem_singleton, List.mem_singleton] at hj
  have := h.regions
  rcases hj with (hj | rfl) | rfl
  · have := hl j hj
    omega
  · omega
  · omega

/-- The length of the two receives. -/
def exchangeSize (count k : Nat) : Nat := if k = 0 then 8 else sizeT (count * mrInfoSize)

/-- The two payloads, in the order they are sent. -/
def exchangePayload (o : ByteOrder) (count k : Nat) (infos : List UInt8) : List UInt8 :=
  if k = 0 then o.bytes 8 count else infos

/-- The second message has been stored as the peer's addresses. -/
structure Stored (D : Nat → List UInt8 → Prop) (o : ByteOrder) (requests : List DccsRequest)
    (count : Nat) (l : Local) (data : List UInt8) (requests' : List DccsRequest) (l' : Local) :
    Prop where
  size : count * mrInfoSize < 2 ^ 64
  infos : ∃ infos, D (l.rq.length + 1) infos ∧ requests' = storeMrInfos o infos requests count ∧
    l'.loads = l.loads ++ [data] ++ [infos]
  rq : l'.rq.length = l.rq.length + 2
  rWcs : l'.rWcs.length = l.rWcs.length + 2

/-- What a result of `get_remote_mr_info` that is not negative means: the first message was read as
`data`; if it is another count, nothing has been stored. -/
structure Fetched (D : Nat → List UInt8 → Prop) (o : ByteOrder) (requests : List DccsRequest)
    (count : Nat) (l : Local) (requests' : List DccsRequest) (l' : Local) : Prop where
  exchanged : Exchanged l l'
  sq : l'.sq = l.sq
  sWcs : l'.sWcs = l.sWcs
  data : ∃ data, D l.rq.length data ∧ l.loads ++ [data] <+: l'.loads ∧
    (o.nat data ≠ count ∧ requests' = requests ∧ l'.loads = l.loads ++ [data] ∨
      o.nat data = count ∧ Stored D o requests count l data requests' l')

/-- What a result of `send_local_mr_info` that is not negative means. -/
structure Announced (l l' : Local) : Prop where
  exchanged : Exchanged l l'
  sq : l'.sq.length = l.sq.length + 2
  rq : l'.rq = l.rq
  sWcs : l'.sWcs.length = l.sWcs.length + 2
  rWcs : l'.rWcs = l.rWcs
  loads : l'.loads = l.loads

namespace Tracking

variable {plan : Plan} {R : Regime} {D : Nat → List UInt8 → Prop}

/-- The two blocks and their regions; if one cannot be had, the function gives up. -/
theorem staged {α : Type} {l : Local} {count array : List UInt8} {n₀ n₁ : Nat}
    (hn₀ : count.length = n₀) (hn₁ : array.length = n₁) (hsize : R.live → n₀ < 2 ^ 64 ∧ n₁ < 2 ^ 64)
    {exit₁ : Ptr → Ptr → VProg α} {exit₂ : Ptr → Ptr → Mr → VProg α}
    {body : Ptr → Ptr → Mr → Mr → VProg α} {Q : α → Local → Prop}
    (hexit₁ : ¬ R.calls → ∀ p v l', Safe (tracking R D) (plan.ok R) (exit₁ p v) l' Q)
    (hexit₂ : ¬ R.calls → ∀ p v mr l', Safe (tracking R D) (plan.ok R) (exit₂ p v mr) l' Q)
    (hbody : ∀ p v mrCount mrArray l', Staged l l' mrCount mrArray v p count array →
      Safe (tracking R D) (plan.ok R) (body p v mrCount mrArray) l' Q) :
    Safe (tracking R D) (plan.ok R) (do
      match ← Call.malloc array with
      | none => .spin
      | some p => do
      let v ← Call.stackVar count
      match ← dccsRegMr .msgs v n₀ with
      | none => exit₁ p v
      | some mrCount => do
      match ← dccsRegMr .msgs p n₁ with
      | none => exit₂ p v mrCount
      | some mrArray => body p v mrCount mrArray) l Q := by
  subst hn₀ hn₁
  refine safe_bind.2 (malloc (fun hl => (hsize hl).2) (fun hc hl => hc (R.clean hl).1)
    fun p hp => ?_)
  refine safe_bind.2 (stackVar (fun hl => (hsize hl).1) fun v hv => ?_)
  refine safe_bind.2 (regMsgs (fun hc => hexit₁ hc _ _ _) fun mrCount hcount => ?_)
  refine safe_bind.2 (regMsgs (fun hc => hexit₂ hc _ _ _ _) fun mrArray harray => ?_)
  exact hbody p v mrCount mrArray _ (staged_of l hp (by simpa using hv) hcount (by simpa using harray))

theorem outFreeBuf {l : Local} {mrInfos var : Ptr} {rv : Int} {Q : Int → Local → Prop} (hq : Q rv l) :
    Safe (tracking R D) (plan.ok R) (MrInfo.outFreeBuf mrInfos var rv) l Q :=
  untracked trivial (fun _ => trivial) (fun _ => rfl) fun _ =>
    untracked trivial (fun _ => trivial) (fun _ => rfl) fun _ => hq

theorem outDeregMrCount {l : Local} {mrCount : Mr} {mrInfos var : Ptr} {rv : Int}
    {Q : Int → Local → Prop} (hidle : R.live → l.Idle)
    (hq : Q rv { l with dereged := l.dereged ++ [mrCount.handle] }) :
    Safe (tracking R D) (plan.ok R) (MrInfo.outDeregMrCount (some mrCount) mrInfos var rv) l Q := by
  refine ⟨⟨trivial, hidle⟩, fun u _ => ?_⟩
  exact outFreeBuf hq

/-- The regions and the blocks are given back. -/
theorem failure {l : Local} {mrCount mrArray : Mr} {mrInfos var : Ptr} {rv : Int}
    {Q : Int → Local → Prop} (hidle : R.live → l.Idle)
    (hlt : R.live → mrArray.handle < l.regions.length)
    (hq : Q rv { l with dereged := l.dereged ++ [mrArray.handle] ++ [mrCount.handle] }) :
    Safe (tracking R D) (plan.ok R) (MrInfo.failure (some mrArray) (some mrCount) mrInfos var rv) l Q := by
  refine ⟨⟨trivial, hidle⟩, fun u _ => ?_⟩
  refine outDeregMrCount (fun hl => ?_) hq
  obtain ⟨hs, hr, hd⟩ := hidle hl
  refine ⟨hs, hr, fun j hj => ?_⟩
  rcases List.mem_append.1 hj with hj | hj
  · exact hd j hj
  · rw [List.mem_singleton.1 hj]
    exact hlt hl

/-- A range of a block read. -/
theorem load {l : Local} {p : Ptr} {mr : Mr} {b len : Nat} {bytes : List UInt8}
    {Q : List UInt8 → Local → Prop} (hload : plan.load l p len) (hb : Buffer l mr p b bytes)
    (hlen : bytes.length = len)
    (hq : ∀ data, (tracking R D).adm l (.load p len) data →
      Q data { l with loads := l.loads ++ [data] }) :
    Safe (tracking R D) (plan.ok R) (Call.load p len) l Q := by
  subst hlen
  refine ⟨⟨hload, fun _ => ⟨b, _, hb.ptr, hb.block, rfl, Nat.le_refl _⟩⟩, fun data ha => ?_⟩
  exact hq data ha

/-! ### Receiving -/

theorem arrived_append {l : Local} (recv : RecvWr) {wc : Wc} {b : Nat}
    (hpolled : l.rWcs.length = l.rq.length)
    (hspot : l.spot recv.mr recv.addr recv.len = some (b, 0)) (hwc : wc.success) {p : Ptr}
    {bytes : List UInt8} (hp : p.block = some b) (hb : l.blocks[b]? = some ⟨p.addr, bytes⟩)
    (hlen : bytes.length = recv.len) :
    Arrived { l with rq := l.rq ++ [recv], rWcs := l.rWcs ++ [wc] } l.rq.length p recv.len := by
  refine ⟨b, bytes, recv, wc, hp, hb, hlen, by simp, hspot, rfl, ?_, hwc⟩
  rw [← hpolled]
  simp

/-- A new buffer may be posted. -/
theorem ready_recv {l : Local} {mr : Mr} {p : Ptr} {len : Nat}
    (hidle : R.live → l.rWcs.length = l.rq.length) (hmr : R.live → mr.handle ∉ l.dereged) :
    R.live → l.Ready (.postRecv ⟨p.addr, len, some mr⟩) :=
  fun hl => ⟨hidle hl, mr, rfl, hmr hl⟩

variable {o : ByteOrder} {requests : List DccsRequest} {count : Nat}

/-- `get_remote_mr_info` posts a receive for the count, then one for the array. -/
theorem getRemoteMrInfo {l : Local} (hpolled : l.rWcs.length = l.rq.length)
    (hidle : R.live → l.Idle)
    (hrecv : ∀ l' recv k, k < 2 → l.Extends l' → recv.len = exchangeSize count k →
      l'.spot recv.mr recv.addr recv.len = some (l.blocks.length + 1 - k, 0) →
      plan.recv l' (l.rq.length + k) recv)
    (hload : ∀ l' p len k, k < 2 → l.Extends l' → l'.loads.length = l.loads.length + k →
      Arrived l' (l.rq.length + k) p len → plan.load l' p len)
    (hsize : R.live → count * mrInfoSize < 2 ^ 64) :
    Safe (tracking R D) (plan.ok R) (RdmaOpera.getRemoteMrInfo o requests count) l fun r l' =>
      (R.calls → R.completions → 0 ≤ r.1) ∧ (0 ≤ r.1 → Fetched D o requests count l r.2 l') := by
  have hneg : ∀ rv : Int, rv < 0 → ¬ R.completions ∨ ¬ R.calls → ∀ requests' l',
      (R.calls → R.completions → 0 ≤ rv) ∧
        (0 ≤ rv → Fetched D o requests count l requests' l') := by
    intro rv hrv hf requests' l'
    refine ⟨fun hc hw => ?_, fun h0 => by omega⟩
    rcases hf with hf | hf
    · exact absurd hw hf
    · exact absurd hc hf
  refine staged (by simp) (by simp) (fun _ => ⟨by decide, sizeT_lt _⟩) ?_ ?_ ?_
  · intro hc p v l'
    exact safe_bind.2 (outFreeBuf (hneg (-1) (by decide) (.inr hc) _ _))
  · intro hc p v mr l'
    exact safe_bind.2 (outDeregMrCount (fun hl => absurd (R.clean hl).1 hc)
      (hneg (-1) (by decide) (.inr hc) _ _))
  · intro mrInfos var mrCount mrArray l₁ hs
    have hfail : ∀ (rv : Int) (l' : Local), rv < 0 → ¬ R.completions ∨ ¬ R.calls →
        Safe (tracking R D) (plan.ok R) ((·, requests) <$> MrInfo.failure (some mrArray)
          (some mrCount) mrInfos var rv) l' fun r l' =>
          (R.calls → R.completions → 0 ≤ r.1) ∧
            (0 ≤ r.1 → Fetched D o requests count l r.2 l') := by
      intro rv l' hrv hf
      have hdead : ¬ R.live :=
        fun hl => hf.elim (fun hf => hf (R.clean hl).2) (fun hf => hf (R.clean hl).1)
      exact safe_bind.2 (failure (fun hl => absurd hl hdead) (fun hl => absurd hl hdead) (hneg rv hrv hf _ _))
    have hpolled₁ : l₁.rWcs.length = l₁.rq.length := by rw [hs.rWcs, hs.rq, hpolled]
    have hsends₁ : R.live → l₁.sWcs.length = l₁.sq.length :=
      fun hl => by rw [hs.sWcs, hs.sq, (hidle hl).sends]
    have hlt₁ : mrArray.handle < l₁.regions.length := by
      rw [hs.regions, hs.arrayHandle]
      omega
    have hspot₀ := hs.count.spot
    simp only [ByteOrder.length_bytes] at hspot₀
    refine safe_bind.2 (recvStep ?_ ?_ ?_ ?_)
    · rw [hs.rq]
      exact hrecv l₁ _ 0 (by decide) hs.ext rfl hspot₀
    · exact ready_recv (fun _ => hpolled₁) fun hl => (hs.fresh (hidle hl)).1
    · intro hf rv hrv l'
      exact safe_ite.2 ⟨fun _ => hfail rv l' hrv hf, fun hok => absurd Bool.false_ne_true hok⟩
    · intro wc hwc
      refine safe_ite.2 ⟨fun hok => absurd rfl hok, fun _ => ?_⟩
      let l₂ : Local :=
        { l₁ with rq := l₁.rq ++ [⟨var.addr, 8, some mrCount⟩], rWcs := l₁.rWcs ++ [wc] }
      have he₂ : l₁.Extends l₂ :=
        { Local.Extends.refl l₁ with rq := List.prefix_append _ _, rWcs := List.prefix_append _ _ }
      have harrived₂ : Arrived l₂ l.rq.length var 8 := by
        rw [← hs.rq]
        exact arrived_append ⟨var.addr, 8, some mrCount⟩ hpolled₁ hspot₀ hwc hs.count.ptr
          hs.count.block (by simp)
      have hpolled₂ : l₂.rWcs.length = l₂.rq.length := by simp [l₂, hpolled₁]
      have hplan₀ : plan.load l₂ var 8 :=
        hload l₂ var 8 0 (by decide) (hs.ext.trans he₂) (congrArg List.length hs.loads) harrived₂
      refine safe_bind.2 (safe_bind.2 (load hplan₀ (hs.count.extends he₂) (by simp) fun data hdata => ?_))
      have hD := hdata.reads _ harrived₂
      have he₃ : l₁.Extends { l₂ with loads := l₂.loads ++ [data] } :=
        { he₂ with loads := List.prefix_append _ _ }
      refine safe_ite.2 ⟨fun hne => quiet.logError_bind ?_, fun heq => ?_⟩
      · -- another count: nothing is stored, and the result is still that of the receive
        refine safe_bind.2 (failure ?_ ?_ ⟨fun _ _ => by simp, fun _ => ?_⟩)
        · intro hl
          exact hs.idle (hidle hl) (hsends₁ hl) hpolled₂ rfl rfl
        · exact fun _ => hlt₁
        · have hloads : l₁.loads ++ [data] = l.loads ++ [data] := by rw [hs.loads]
          exact ⟨hs.exchanged he₃ rfl rfl rfl, hs.sq, hs.sWcs, data, hD, hloads ▸ List.prefix_rfl,
            .inl ⟨hne, rfl, hloads⟩⟩
      · have heq : o.nat data = count := not_not.1 heq
        have hspot₁ := (hs.array.extends he₃).spot
        rw [List.length_replicate] at hspot₁
        have hrq₂ : l₂.rq.length = l.rq.length + 1 := by simp [l₂, hs.rq]
        refine safe_bind.2 (recvStep ?_ ?_ ?_ ?_)
        · have := hrecv _ ⟨mrInfos.addr, sizeT (count * mrInfoSize), some mrArray⟩ 1
            (by decide) (hs.ext.trans he₃) rfl hspot₁
          rwa [← hrq₂] at this
        · exact ready_recv (fun _ => hpolled₂) fun hl => (hs.fresh (hidle hl)).2
        · intro hf rv hrv l'
          exact safe_ite.2 ⟨fun _ => hfail rv l' hrv hf, fun hok => absurd Bool.false_ne_true hok⟩
        · intro wc' hwc'
          refine safe_ite.2 ⟨fun hok => absurd rfl hok, fun _ => ?_⟩
          refine safe_ite.2 ⟨fun hne hl => hne (sizeT_of_lt (hsize hl)), fun hfit => ?_⟩
          have hfit : sizeT (count * mrInfoSize) = count * mrInfoSize := not_not.1 hfit
          let l₃ : Local := { l₂ with loads := l₂.loads ++ [data] }
          let recv : RecvWr := ⟨mrInfos.addr, sizeT (count * mrInfoSize), some mrArray⟩
          let l₄ : Local := { l₃ with rq := l₃.rq ++ [recv], rWcs := l₃.rWcs ++ [wc'] }
          have he₄ : l₁.Extends l₄ :=
            { he₃ with
              rq := he₃.rq.trans (List.prefix_append _ _)
              rWcs := he₃.rWcs.trans (List.prefix_append _ _) }
          have harrived₄ : Arrived l₄ (l.rq.length + 1) mrInfos (sizeT (count * mrInfoSize)) := by
            rw [← hrq₂]
            exact arrived_append (l := l₃) recv hpolled₂ hspot₁ hwc' hs.array.ptr
              (he₃.block hs.array.block) (by simp [recv])
          have hplan₁ : plan.load l₄ mrInfos (sizeT (count * mrInfoSize)) := by
            refine hload l₄ mrInfos _ 1 (by decide) (hs.ext.trans he₄) ?_ harrived₄
            simp [l₄, l₃, l₂, hs.loads]
          refine safe_bind.2 (load hplan₁ (hs.array.extends he₄) (by simp) fun infos hinfos => ?_)
          have hD' := hinfos.reads _ harrived₄
          refine safe_bind.2 (failure ?_ ?_ ⟨fun _ _ => by simp, fun _ => ?_⟩)
          · intro hl
            refine hs.idle (hidle hl) (hsends₁ hl) ?_ rfl rfl
            simp [hs.rWcs, hs.rq, hpolled]
          · exact fun _ => hlt₁
          · refine ⟨hs.exchanged { he₄ with loads := he₄.loads.trans (List.prefix_append _ _) } rfl
              rfl rfl, hs.sq, hs.sWcs,
              data, hD, ?_, .inr ⟨heq, ?_⟩⟩
            · rw [← hs.loads]
              exact List.prefix_append _ _
            · refine ⟨?_, ⟨infos, hD', rfl, ?_⟩, ?_, ?_⟩
              · rw [← hfit]
                exact sizeT_lt _
              · show l₁.loads ++ [data] ++ [infos] = l.loads ++ [data] ++ [infos]
                rw [hs.loads]
              · simp [hs.rq]
              · simp [hs.rWcs]

/-! ### Sending -/

/-- `send_local_mr_info` posts the count, then the array. -/
theorem sendLocalMrInfo {l : Local} (hidle : R.live → l.Idle)
    (hsend : ∀ infos, localMrInfos o requests count = some infos → count * mrInfoSize < 2 ^ 64 →
      ∀ l' wr k, k < 2 → l.Extends l' → wr.verb = .Send → wr.signaled →
      wr.len = (exchangePayload o count k infos).length → l'.bytesOf (l.blocks.length + 1 - k) =
      exchangePayload o count k infos → l'.spot wr.mr wr.addr wr.len =
      some (l.blocks.length + 1 - k, 0) → plan.send l' (l.sq.length + k) wr)
    (hsize : R.live → count * mrInfoSize < 2 ^ 64)
    (hmrs : R.live → ∀ n < count, (reqAt requests n).mr.isSome) :
    Safe (tracking R D) (plan.ok R) (RdmaOpera.sendLocalMrInfo o requests count) l fun rv l' =>
      (R.calls → R.completions → 0 ≤ rv) ∧ (0 ≤ rv → Announced l l') := by
  have hneg : ∀ rv : Int, rv < 0 → ¬ R.completions ∨ ¬ R.calls → ∀ l',
      (R.calls → R.completions → 0 ≤ rv) ∧ (0 ≤ rv → Announced l l') := by
    intro rv hrv hf l'
    refine ⟨fun hc hw => ?_, fun h0 => by omega⟩
    rcases hf with hf | hf
    · exact absurd hw hf
    · exact absurd hc hf
  refine safe_ite.2 ⟨fun hne hl => hne (sizeT_of_lt (hsize hl)), fun hfit => ?_⟩
  have hfit : sizeT (count * mrInfoSize) = count * mrInfoSize := not_not.1 hfit
  have hlt : count * mrInfoSize < 2 ^ 64 := by
    rw [← hfit]
    exact sizeT_lt _
  cases hinfos : localMrInfos o requests count with
  | none =>
    intro hl
    rw [localMrInfos, if_pos (hmrs hl)] at hinfos
    cases hinfos
  | some infos =>
    have hlen := (localMrInfos_some o hinfos).1
    refine staged (by simp) (by rw [hfit, hlen, Nat.mul_comm])
      (fun _ => ⟨by decide, by rw [hfit]; exact hlt⟩) ?_ ?_ ?_
    · intro hc p v l'
      exact outFreeBuf (hneg (-1) (by decide) (.inr hc) _)
    · intro hc p v mr l'
      exact outDeregMrCount (fun hl => absurd (R.clean hl).1 hc) (hneg (-1) (by decide) (.inr hc) _)
    · intro mrInfos var mrCount mrArray l₁ hs
      have hfail : ∀ (rv : Int) (l' : Local), rv < 0 → ¬ R.completions ∨ ¬ R.calls →
          Safe (tracking R D) (plan.ok R)
            (MrInfo.failure (some mrArray) (some mrCount) mrInfos var rv) l' fun rv l' =>
            (R.calls → R.completions → 0 ≤ rv) ∧ (0 ≤ rv → Announced l l') := by
        intro rv l' hrv hf
        have hdead : ¬ R.live :=
          fun hl => hf.elim (fun hf => hf (R.clean hl).2) (fun hf => hf (R.clean hl).1)
        exact failure (fun hl => absurd hl hdead) (fun hl => absurd hl hdead) (hneg rv hrv hf _)
      have hplan := hsend infos hinfos hlt
      have hspot₀ := hs.count.spot
      rw [ByteOrder.length_bytes] at hspot₀
      refine safe_bind.2 (sendStep ?_ ?_ ?_ ?_)
      · rw [hs.sq]
        exact hplan l₁ _ 0 (by decide) hs.ext rfl rfl (by simp [exchangePayload]) hs.count.bytesOf hspot₀
      · exact fun hl => ⟨by rw [hs.sWcs, hs.sq]; exact (hidle hl).sends, mrCount, rfl, (hs.fresh (hidle hl)).1⟩
      · intro hf rv hrv l'
        exact safe_ite.2 ⟨fun _ => hfail rv l' hrv hf, fun hok => absurd Bool.false_ne_true hok⟩
      · intro wc hwc
        refine safe_ite.2 ⟨fun hok => absurd rfl hok, fun _ => ?_⟩
        let wr₀ : SendWr := ⟨.Send, var.addr, 8, some mrCount, 0, 0, true⟩
        let l₂ : Local := { l₁ with sq := l₁.sq ++ [wr₀], sWcs := l₁.sWcs ++ [wc] }
        have he₂ : l₁.Extends l₂ :=
          { Local.Extends.refl l₁ with sq := List.prefix_append _ _, sWcs := List.prefix_append _ _ }
        have hsq₂ : l₂.sq.length = l.sq.length + 1 := by simp [l₂, hs.sq]
        have hspot₁ := (hs.array.extends he₂).spot
        rw [hlen, Nat.mul_comm, ← hfit] at hspot₁
        refine safe_bind.2 (sendStep ?_ ?_ ?_ ?_)
        · have := hplan l₂ ⟨.Send, mrInfos.addr, sizeT (count * mrInfoSize), some mrArray,
            0, 0, true⟩ 1 (by decide)
            (hs.ext.trans he₂) rfl rfl (by rw [hfit]; simp [exchangePayload, hlen, Nat.mul_comm])
            (hs.array.extends he₂).bytesOf hspot₁
          rwa [← hsq₂] at this
        · refine fun hl => ⟨?_, mrArray, rfl, (hs.fresh (hidle hl)).2⟩
          have := (hidle hl).sends
          simp [hs.sq, hs.sWcs, this]
        · exact fun hf rv hrv l' => hfail rv l' hrv hf
        · intro wc' _
          refine failure ?_ ?_ ⟨fun _ _ => by simp, fun _ => ?_⟩
          · intro hl
            refine hs.idle (hidle hl) ?_ ?_ rfl rfl
            · have := (hidle hl).sends
              simp [hs.sq, hs.sWcs, this]
            · show l₁.rWcs.length = l₁.rq.length
              rw [hs.rWcs, hs.rq]
              exact (hidle hl).recvs
          · intro _
            show mrArray.handle < l₁.regions.length
            rw [hs.regions, hs.arrayHandle]
            omega
          · refine ⟨hs.exchanged
              { he₂ with
                sq := he₂.sq.trans (List.prefix_append _ _)
                sWcs := he₂.sWcs.trans (List.prefix_append _ _) }
              rfl rfl rfl, ?_, hs.rq, ?_,
              hs.rWcs, hs.loads⟩
            · simp [hs.sq]
            · simp [hs.sWcs]

end Tracking

end RdmaOpera
