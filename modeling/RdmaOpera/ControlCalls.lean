import RdmaOpera.ControlPlan

/-!
# The two processes of `control_exec`, call by call

`run` walked through from its first call, while nothing fails. `Stage` counts what a process has
posted and polled so far. A poll of the server for the writes of a round may bring several
completions, but never more than there are requests (`counting`).
-/

namespace RdmaOpera

open Lib Prog

namespace ControlExec

/-- What a process has got to: `b` blocks, `s` requests posted and `p` completions of them polled,
`n` receives posted and filled. -/
structure Stage (params : DccsParameters) (ins outs : List DccsRequest) (b s p n : Nat) (l : Local) :
    Prop where
  slotsIn : Slots params l ins
  slotsOut : ∀ i < params.count, OutSlot params l i (reqAt outs i)
  length : outs.length = params.count
  blocks : l.blocks.length = b
  sends : l.sq.length = s
  polled : l.sWcs.length = p
  recvs : l.rq.length = n
  filled : l.rWcs.length = n
  signaled : ∀ wr ∈ l.sq, wr.signaled
  regions : 2 * params.mrCount ≤ l.regions.length
  dereged : ∀ j ∈ l.dereged, 2 * params.mrCount ≤ j ∧ j < l.regions.length

section calls
variable {o : ByteOrder} {params : DccsParameters} {r : Role} {D : Nat → List UInt8 → Prop}
  {l l' : Local} {ins outs outs' : List DccsRequest} {b s p n : Nat} {α : Type}

namespace Stage

theorem idle (h : Stage params ins outs b s s n l) : l.Idle :=
  ⟨h.polled.trans h.sends.symm, h.filled.trans h.recvs.symm, fun j hj => (h.dereged j hj).2⟩

/-- The regions of the requests are registered. -/
theorem live (h : Stage params ins outs b s p n l) {mr : Mr} (hmr : mr.handle < 2 * params.mrCount) :
    mr.handle ∉ l.dereged := by
  intro hmem
  have := (h.dereged _ hmem).1
  omega

/-- So is a region that has just been. -/
theorem fresh (h : Stage params ins outs b s p n l) {mr : Mr} (hmr : mr.handle = l.regions.length) :
    mr.handle ∉ l.dereged := by
  intro hmem
  have := (h.dereged _ hmem).2
  omega

theorem signaled_eq (h : Stage params ins outs b s p n l) : l.signaled = s :=
  (Local.signaled_eq h.signaled).trans h.sends

/-- A new block changes nothing. -/
theorem pushed (h : Stage params ins outs b s p n l) (block : Block) :
    Stage params ins outs (b + 1) s p n { l with blocks := l.blocks ++ [block] } := by
  have he : l.Extends { l with blocks := l.blocks ++ [block] } :=
    { Local.Extends.refl l with blocks := List.prefix_append _ _ }
  exact { h with
    slotsIn := h.slotsIn.extends he
    slotsOut := fun i hi => (h.slotsOut i hi).extends he
    blocks := by simp [h.blocks] }

theorem dereged_of (h : Stage params ins outs b s p n l) (hx : Exchanged l l') :
    ∀ j ∈ l'.dereged, 2 * params.mrCount ≤ j ∧ j < l'.regions.length := by
  have hregions := h.regions
  intro j hj
  refine ⟨?_, hx.dereged_lt (fun j hj => (h.dereged j hj).2) j hj⟩
  rw [hx.dereged, List.mem_append, List.mem_append, List.mem_singleton, List.mem_singleton] at hj
  rcases hj with (hj | rfl) | rfl
  · exact (h.dereged j hj).1
  · omega
  · omega

theorem announced (h : Stage params ins outs b 0 0 n l) (ha : Announced l l')
    (hsig : ∀ wr ∈ l'.sq, wr.signaled) : Stage params ins outs (b + 2) 2 2 n l' where
  slotsIn := h.slotsIn.extends ha.exchanged.ext
  slotsOut i hi := (h.slotsOut i hi).extends ha.exchanged.ext
  length := h.length
  blocks := by rw [ha.exchanged.blocks, h.blocks]
  sends := by rw [ha.sq, h.sends]
  polled := by rw [ha.sWcs, h.polled]
  recvs := by rw [ha.rq, h.recvs]
  filled := by rw [ha.rWcs, h.filled]
  signaled := hsig
  regions := by
    have := h.regions
    rw [ha.exchanged.regions]
    omega
  dereged := h.dereged_of ha.exchanged

/-- The addresses have been stored. -/
theorem fetched (h : Stage params ins outs b s s 0 l) (hloads : l.loads = [])
    (hcount : ∀ data, D 0 data → o.nat data = params.count)
    (hf : Fetched D o outs params.count l outs' l') :
    Stage params ins outs' (b + 2) s s 2 l' ∧
      (∀ i < params.count, OutRequest o params l' i (reqAt outs' i)) ∧ l'.loads.length = 2 := by
  obtain ⟨hx, hsq, hsWcs, data, hdata, -, hcase⟩ := hf
  rw [h.recvs] at hdata
  rcases hcase with ⟨hne, -, -⟩ | ⟨-, hstored⟩
  · exact absurd (hcount data hdata) hne
  obtain ⟨-, ⟨infos, -, rfl, hl'⟩, hrq, hrWcs⟩ := hstored
  rw [hloads] at hl'
  have hinfos : l'.loads[1]? = some infos := by rw [hl']; rfl
  have hrequest : ∀ i < params.count, reqAt (storeMrInfos o infos outs params.count) i =
      storeMrInfo o infos i (reqAt outs i) := by
    intro i hi
    rw [storeMrInfos, reqAt_mapIdx (by rw [h.length]; exact hi), if_pos hi]
  have hslot : ∀ i < params.count, OutSlot params l' i
      (reqAt (storeMrInfos o infos outs params.count) i) := by
    intro i hi
    obtain ⟨hlen, bufBase, hg, hbuf⟩ := (h.slotsOut i hi).extends hx.ext
    rw [hrequest i hi]
    exact ⟨hlen, bufBase, hg, hbuf⟩
  refine ⟨⟨h.slotsIn.extends hx.ext, hslot, ?_, ?_, ?_, ?_, ?_, ?_, ?_, ?_, h.dereged_of hx⟩,
    fun i hi => ⟨hslot i hi, infos, hinfos, ?_⟩, ?_⟩
  · simp [storeMrInfos, h.length]
  · rw [hx.blocks, h.blocks]
  · rw [hsq, h.sends]
  · rw [hsWcs, h.polled]
  · rw [hrq, h.recvs]
  · rw [hrWcs, h.filled]
  · rw [hsq]
    exact h.signaled
  · have := h.regions
    rw [hx.regions]
    omega
  · rw [hrequest i hi]
    rfl
  · rw [hl']
    rfl

end Stage

/-! ## The buffers -/

/-- Behind the first `allocate_buffer`. -/
structure FirstAllocated (params : DccsParameters) (ins : List DccsRequest) (l : Local) : Prop where
  slots : Slots params l ins
  blocks : l.blocks.length = params.mrCount
  regions : l.regions.length = params.mrCount
  rest : l = { blocks := l.blocks, regions := l.regions }

theorem fit_region (h : l.dereged = []) (hkeys : l.regions.length < 2 ^ 32) {p : Ptr} {j len : Nat}
    (hp : p.block = some j) (hj : j < 2 * params.mrCount) :
    Fit o params r l (.regMr (accessOf params.verb) p len) :=
  ⟨⟨.inr ⟨rfl, j, hp, hj⟩, .inr h⟩, .inr hkeys, trivial, fun _ he => nomatch he⟩

theorem fit_random {size : Nat} (h : size < 2 ^ 64) : Fit o params r l (.mallocRandom size) :=
  ⟨trivial, h, trivial, fun _ he => nomatch he⟩

theorem fit_firstBuffer (h : Accepted params) (hkeys : 2 * params.mrCount ≤ 2 ^ 32) :
    Safe (tracking .steady D) (Fit o params r)
      (allocateBuffer (List.replicate params.count {}) params) {} fun res l =>
        res.1 = 0 ∧ FirstAllocated params res.2 l := by
  refine (Steady.allocateBuffer lenient_fit h List.length_replicate rfl
    (fun _ => fit_random (sizeT_lt _)) fun l' p j hj hregions hdereged hp => ?_).mono ?_
  · rw [show ({} : Local).regions.length + j = j from Nat.zero_add j] at hregions
    rw [show ({} : Local).blocks.length + j = j from Nat.zero_add j] at hp
    exact fit_region hdereged (by omega) hp (by omega)
  · rintro res l ⟨hrv, gs, hgs, hg, hfilled⟩
    have hblocks := hg.blocks
    have hregions := hg.regions
    simp only [List.length_nil, Nat.zero_add, hgs] at hblocks hregions
    refine ⟨hrv, ⟨hfilled.length.trans List.length_replicate, fun i hi => ?_⟩, hblocks, hregions, hg.rest⟩
    obtain ⟨g, hi', hrequest⟩ := hfilled.done i hi
    have hgroup := hg.groups _ g hi'
    rw [show ({} : Local).blocks.length + i / countPerMr params = i / countPerMr params from
      Nat.zero_add _] at hgroup
    rw [hrequest]
    exact ⟨rfl, rfl, g.base, hgroup, rfl⟩

/-- Behind the second one, and `n` packets have been written. -/
structure Packing (params : DccsParameters) (ins outs : List DccsRequest) (n : Nat) (l : Local) : Prop where
  stage : Stage params ins outs (2 * params.mrCount) 0 0 0 l
  loads : l.loads = []
  digests : l.digests = []
  stores : l.stores.length = 2 * n

theorem fit_secondBuffer (h : Accepted params) (hkeys : 2 * params.mrCount ≤ 2 ^ 32)
    (hl : FirstAllocated params ins l) :
    Safe (tracking .steady D) (Fit o params r)
      (allocateBuffer (List.replicate params.count {}) params) l fun res l' =>
        res.1 = 0 ∧ Packing params ins res.2 0 l' := by
  have hfirst := hl.blocks
  have hdereged₀ : l.dereged = [] := by rw [hl.rest]
  refine (Steady.allocateBuffer lenient_fit h List.length_replicate (hl.regions.trans hfirst.symm)
    (fun _ => fit_random (sizeT_lt _)) fun l' p j hj hregions hdereged hp => ?_).mono ?_
  · rw [hl.regions] at hregions
    rw [hfirst] at hp
    exact fit_region (hdereged.trans hdereged₀) (by omega) hp (by omega)
  · rintro res l' ⟨hrv, gs, hgs, hg, hfilled⟩
    have hblocks := hg.blocks
    have hregions := hg.regions
    rw [hfirst, hgs] at hblocks
    rw [hl.regions, hgs] at hregions
    have hrest : l' = { blocks := l'.blocks, regions := l'.regions } := by
      have hsame := hg.rest
      rw [hl.rest] at hsame
      exact hsame
    have hloads : l'.loads = [] := by rw [hrest]
    have hdigests : l'.digests = [] := by rw [hrest]
    have hsq : l'.sq = [] := by rw [hrest]
    have hrq : l'.rq = [] := by rw [hrest]
    have hsWcs : l'.sWcs = [] := by rw [hrest]
    have hrWcs : l'.rWcs = [] := by rw [hrest]
    have hdereged : l'.dereged = [] := by rw [hrest]
    have hstores : l'.stores = [] := by rw [hrest]
    refine ⟨hrv, ⟨hl.slots.extends hg.extends_, fun i hi => ?_, ?_, by omega, ?_, ?_, ?_, ?_, ?_,
      by omega, ?_⟩, hloads, hdigests, by rw [hstores]; rfl⟩
    · obtain ⟨g, hi', hrequest⟩ := hfilled.done i hi
      have hgroup := hg.groups _ g hi'
      rw [hfirst] at hgroup
      rw [hrequest]
      exact ⟨rfl, g.base, hgroup, rfl⟩
    · exact hfilled.length.trans List.length_replicate
    · rw [hsq, List.length_nil]
    · rw [hsWcs, List.length_nil]
    · rw [hrq, List.length_nil]
    · rw [hrWcs, List.length_nil]
    · simp [hsq]
    · simp [hdereged]

/-! ## The packets -/

/-- The next part of a packet stays in its block if a packet is no longer than a request. -/
theorem Packing.fit_part (hl : Packing params ins outs n l) (h : Accepted params)
    (hsize : countPerMr params * params.length < 2 ^ 64) (hlong : packetLength ≤ params.length)
    (hn : n < params.count) {j : Nat} {part : Nat × List UInt8}
    (hpart : (packetParts o params)[j]? = some part) {stores : List (Ptr × List UInt8)}
    (hpre : l.stores <+: stores) (hlength : stores.length = 2 * n + j) :
    Fit o params r { l with stores } (.store ((reqAt outs n).buf.add part.1) part.2) := by
  have hj : j < 2 := (List.getElem?_eq_some_iff.1 hpart).1
  have hslot : OutSlot params { l with stores } n (reqAt outs n) :=
    (hl.stage.slotsOut n hn).extends { Local.Extends.refl l with stores := hpre }
  have hplan : Stores o params { l with stores } stores.length
      ((reqAt outs n).buf.add part.1, part.2) := by
    rw [hlength]
    refine ⟨by omega, _, part, ?_, ?_, rfl⟩
    · rwa [show (2 * n + j) / 2 = n by omega]
    · rwa [show (2 * n + j) % 2 = j by omega]
  exact ⟨hplan, hslot.covers h.countPerMr_pos hsize part.1 _
      ((packetParts_within (List.mem_of_getElem? hpart)).trans hlong),
    ⟨List.length_eq_zero_iff.1 hl.stage.sends, List.length_eq_zero_iff.1 hl.stage.recvs, hl.loads⟩,
    fun _ he => nomatch he⟩

/-- One packet more. -/
theorem Packing.next (h : Packing params ins outs n l) (s s' : Ptr × List UInt8) :
    Packing params ins outs (n + 1) { l with stores := l.stores ++ [s] ++ [s'] } := by
  have he : l.Extends { l with stores := l.stores ++ [s] ++ [s'] } :=
    { Local.Extends.refl l with stores := (List.prefix_append _ _).trans (List.prefix_append _ _) }
  refine ⟨{ h.stage with
    slotsIn := h.stage.slotsIn.extends he
    slotsOut := fun i hi => (h.stage.slotsOut i hi).extends he }, h.loads, h.digests, ?_⟩
  simp only [List.length_append, List.length_singleton, h.stores]
  omega

theorem fit_writePacket (h : Accepted params) (hsize : countPerMr params * params.length < 2 ^ 64)
    (hlong : packetLength ≤ params.length) (hn : n < params.count)
    (hl : Packing params ins outs n l) :
    Safe (tracking .steady D) (Fit o params r) (writePacket o params outs n ()) l fun _ l' =>
      Packing params ins outs (n + 1) l' := by
  have hmagic : (packetParts o params)[0]? = some (0, magicBytes o) := rfl
  have hindex : (packetParts o params)[1]? = some (4, indexBytes o params) := rfl
  have hboth : Safe (tracking .steady D) (Fit o params r) (do
      Call.store (reqAt outs n).buf (magicBytes o)
      Call.store ((reqAt outs n).buf.add 4) (indexBytes o params)) l fun _ l' =>
        Packing params ins outs (n + 1) l' := by
    refine ⟨hl.fit_part h hsize hlong hn hmagic List.prefix_rfl hl.stores, fun _ _ => ?_⟩
    refine ⟨hl.fit_part h hsize hlong hn hindex (List.prefix_append _ _) ?_, fun _ _ => hl.next _ _⟩
    rw [List.length_append, hl.stores]
    rfl
  unfold writePacket
  cases RdmaExec.roleOf params <;> exact hboth

theorem fit_writePackets (h : Accepted params) (hsize : countPerMr params * params.length < 2 ^ 64)
    (hlong : packetLength ≤ params.length) (hl : Packing params ins outs 0 l) :
    Safe (tracking .steady D) (Fit o params r) (writePackets o params outs) l fun _ l' =>
      Packing params ins outs params.count l' :=
  safe_forN (fun n _ l' => Packing params ins outs n l') hl fun _ _ _ hn hI =>
    fit_writePacket h hsize hlong hn hI

/-! ## The exchange -/

theorem fit_of_timely {op : VOp} (hok : (controlPlan o params r).allows l op ∧ l.Served op ∧ l.Due op ∧
    Steady.Late (2 * params.mrCount) op) : Fit o params r l op := by
  refine ⟨hok.1, hok.2.1, hok.2.2.1, fun mr he _ hlt => ?_⟩
  have := hok.2.2.2 mr he
  omega

/-- What the plan says of one side of the exchange. -/
theorem fit_side {p : VProg α} {Q Q' : α → Local → Prop} (hsig : ∀ wr ∈ l.sq, wr.signaled)
    (h : Safe (tracking .steady D) ((controlPlan o params r).ok .steady) p l Q)
    (h' : Safe (tracking .steady fun _ _ => True) ((controlPlan o params r).ok .steady) p l Q')
    (hlate : ∀ a t, Q' a t → ∀ j ∈ t.dereged, 2 * params.mrCount ≤ j) :
    Safe (tracking .steady D) (Fit o params r) p l fun a t => Q a t ∧ ∀ wr ∈ t.sq, wr.signaled := by
  have hboth := (h.both (Steady.late h' hlate)).relax rfl (fun _ _ _ ha => ha) id
    (fun _ _ hok => hok.2)
  have hplan : ∀ l k wr, (controlPlan o params r).send l k wr → wr.signaled :=
    fun _ _ _ hs => Sends.signaled hs
  refine ((Steady.timely hplan hsig hboth).relax rfl (fun _ _ _ ha => ha) id
    fun _ _ hok => fit_of_timely hok).mono fun a t ha => ⟨ha.1.1, ha.2⟩

theorem planned_announce (hl : Stage params ins outs b 0 0 n l)
    (hb : b = (controlSide params r ins).sb) (hn : (controlSide params r ins).recvsFirst ≤ n)
    (hsize : params.count * mrInfoSize < 2 ^ 64) :
    Safe (tracking .steady D) ((controlPlan o params r).ok .steady)
      (sendLocalMrInfo o ins params.count) l fun rv l' => 0 ≤ rv ∧ Announced l l' := by
  have hmrs : ∀ i < params.count, (reqAt ins i).mr.isSome := by
    intro i hi
    obtain ⟨-, -, bufBase, hg, -⟩ := hl.slotsIn.slot i hi
    obtain ⟨mr, hmr, -⟩ := hg.region
    rw [hmr]
    rfl
  have hcount : (controlSide params r ins).count = params.count := by cases r <;> rfl
  have hsent : (controlSide params r ins).sent = ins := by cases r <;> rfl
  refine (Tracking.sendLocalMrInfo (R := .steady) (fun _ => hl.idle) ?_ (fun _ => hsize)
    fun _ => hmrs).mono fun rv l' hrv =>
      ⟨hrv.1 trivial trivial, hrv.2 (hrv.1 trivial trivial)⟩
  intro infos hinfos hsize' l' wr k hk he hv hs hlen hbytes hspot
  rw [hl.sends, Nat.zero_add]
  rw [hl.blocks, hb] at hspot hbytes
  refine .announce ins (hl.slotsIn.extends he) ⟨hk, ?_, hv, hs, hspot, ⟨infos, ?_, ?_, ?_⟩, ?_⟩
  · rw [hcount]
    exact hsize
  · rw [hsent, hcount]
    exact hinfos
  · rw [hcount]
    exact hlen
  · rw [hcount]
    exact hbytes
  · exact (hn.trans_eq hl.filled.symm).trans he.rWcs.length_le

theorem fit_announce (hl : Stage params ins outs b 0 0 n l)
    (hb : b = (controlSide params r ins).sb) (hn : (controlSide params r ins).recvsFirst ≤ n)
    (hsize : params.count * mrInfoSize < 2 ^ 64) :
    Safe (tracking .steady D) (Fit o params r) (sendLocalMrInfo o ins params.count) l fun rv l' =>
      0 ≤ rv ∧ Stage params ins outs (b + 2) 2 2 n l' ∧ l.Extends l' ∧ l'.loads = l.loads := by
  refine (fit_side hl.signaled (planned_announce hl hb hn hsize) (planned_announce hl hb hn hsize)
    fun rv l' hrv j hj => (hl.dereged_of hrv.2.exchanged j hj).1).mono ?_
  rintro rv l' ⟨⟨h0, ha⟩, hsig⟩
  exact ⟨h0, hl.announced ha hsig, ha.exchanged.ext, ha.loads⟩

theorem planned_fetch (hl : Stage params ins outs b s s 0 l) (hloads : l.loads = [])
    (hb : b = (controlSide params r []).rb) (hs : (controlSide params r []).sendsFirst ≤ s)
    (hsize : params.count * mrInfoSize < 2 ^ 64) :
    Safe (tracking .steady D) ((controlPlan o params r).ok .steady)
      (getRemoteMrInfo o outs params.count) l fun res l' =>
        0 ≤ res.1 ∧ Fetched D o outs params.count l res.2 l' := by
  have hcount : (controlSide params r []).count = params.count := by cases r <;> rfl
  refine (Tracking.getRemoteMrInfo (R := .steady) hl.idle.recvs (fun _ => hl.idle) ?_ ?_
    fun _ => hsize).mono fun res l' hr => ⟨hr.1 trivial trivial, hr.2 (hr.1 trivial trivial)⟩
  · intro l' recv k hk he hlen hspot
    rw [hl.recvs, Nat.zero_add]
    rw [hl.blocks, hb] at hspot
    refine .address ⟨hk, ?_, hspot, (hs.trans_eq hl.polled.symm).trans he.sWcs.length_le⟩
    rw [hcount]
    exact hlen
  · intro l' p len k hk he hlength ha
    rw [hloads, List.length_nil, Nat.zero_add] at hlength
    rw [hl.recvs, Nat.zero_add] at ha
    exact .inl ⟨k, hk, hlength, ha⟩

theorem fit_fetch (hl : Stage params ins outs b s s 0 l) (hloads : l.loads = [])
    (hb : b = (controlSide params r []).rb) (hs : (controlSide params r []).sendsFirst ≤ s)
    (hsize : params.count * mrInfoSize < 2 ^ 64)
    (hcount : ∀ data, D 0 data → o.nat data = params.count) :
    Safe (tracking .steady D) (Fit o params r) (getRemoteMrInfo o outs params.count) l fun res l' =>
      0 ≤ res.1 ∧ Stage params ins res.2 (b + 2) s s 2 l' ∧
        (∀ i < params.count, OutRequest o params l' i (reqAt res.2 i)) ∧ l'.loads.length = 2 := by
  refine (fit_side hl.signaled (planned_fetch hl hloads hb hs hsize)
    (planned_fetch hl hloads hb hs hsize)
    fun res l' hr j hj => (hl.dereged_of hr.2.exchanged j hj).1).mono ?_
  rintro res l' ⟨⟨h0, hf⟩, -⟩
  exact ⟨h0, hl.fetched hloads hcount hf⟩

theorem fit_bothWays (hsize : params.count * mrInfoSize < 2 ^ 64)
    (hcount : ∀ data, D 0 data → o.nat data = params.count)
    (hl : Stage params ins outs (2 * params.mrCount) 0 0 0 l) (hloads : l.loads = []) :
    Safe (tracking .steady D) (Fit o params r) (exchangeMrInfo o r ins outs params.count) l
      fun res l' => 0 ≤ res.1 ∧ Stage params ins res.2 (2 * params.mrCount + 4) 2 2 2 l' ∧
        (∀ i < params.count, OutRequest o params l' i (reqAt res.2 i)) ∧ l'.loads.length = 2 := by
  cases r with
  | client =>
    refine Safe.bind (fit_announce hl rfl (Nat.zero_le _) hsize) ?_
    rintro rv l₁ ⟨h0, h₁, -, hloads₁⟩
    refine safe_ite.2 ⟨fun hneg => absurd h0 (Int.not_le.2 hneg), fun _ => ?_⟩
    refine Safe.bind (fit_fetch h₁ (hloads₁.trans hloads) rfl (Nat.le_refl 2) hsize hcount) ?_
    rintro ⟨rv, outs'⟩ l₂ ⟨h0, h₂, hout, hread⟩
    exact safe_ite.2 ⟨fun hneg => absurd h0 (Int.not_le.2 hneg), fun _ => ⟨h0, h₂, hout, hread⟩⟩
  | server =>
    refine Safe.bind (fit_fetch hl hloads rfl (Nat.zero_le _) hsize hcount) ?_
    rintro ⟨rv, outs'⟩ l₁ ⟨h0, h₁, hout, hread⟩
    refine safe_ite.2 ⟨fun hneg => absurd h0 (Int.not_le.2 hneg), fun _ => ?_⟩
    refine Safe.bind (fit_announce h₁ rfl (Nat.le_refl 2) hsize) ?_
    rintro rv l₂ ⟨h0, h₂, he, hloads₂⟩
    refine safe_ite.2 ⟨fun hneg => absurd h0 (Int.not_le.2 hneg), fun _ => ⟨h0, h₂, ?_, ?_⟩⟩
    · exact fun i hi => (hout i hi).extends he
    · rw [hloads₂]
      exact hread

/-- Behind the exchange. -/
structure Connected (o : ByteOrder) (params : DccsParameters) (ins outs : List DccsRequest) (b s p n : Nat)
    (l : Local) : Prop where
  stage : Stage params ins outs b s p n l
  outgoing : ∀ i < params.count, OutRequest o params l i (reqAt outs i)
  loads : l.loads.length = 2
  digests : l.digests = []
  packets : 2 * params.count ≤ l.stores.length

/-- Nothing is hashed in the exchange. -/
theorem undigested_exchange (count : Nat) : Calls Undigested (exchangeMrInfo o r ins outs count) := by
  have hget : Calls Undigested (getRemoteMrInfo o outs count) :=
    calls_getRemoteMrInfo ⟨fun _ => trivial, fun _ => trivial, fun _ => trivial, fun _ _ _ => trivial,
      fun _ => trivial⟩ ⟨fun _ => trivial, trivial, fun _ => trivial⟩
      ⟨fun _ => trivial, fun _ => trivial, fun _ => trivial⟩ (fun _ _ => trivial) o outs count
  have hsend : Calls Undigested (sendLocalMrInfo o ins count) :=
    calls_sendLocalMrInfo ⟨fun _ => trivial, fun _ => trivial, fun _ => trivial, fun _ _ _ => trivial,
      fun _ => trivial⟩ ⟨fun _ => trivial, fun _ => trivial, trivial, fun _ => trivial⟩
      ⟨fun _ => trivial, fun _ => trivial, fun _ => trivial⟩ o ins count
  have hlog : ∀ {format : String} {a : Int × List DccsRequest},
      Calls Undigested (do Call.logError format; pure a) := calls_logError fun _ => trivial
  cases r with
  | client => exact hsend.bind fun _ => .ite hlog (hget.bind fun _ => .ite hlog trivial)
  | server => exact hget.bind fun _ => .ite hlog (hsend.bind fun _ => .ite hlog trivial)

theorem fit_exchange (hsize : params.count * mrInfoSize < 2 ^ 64)
    (hcount : ∀ data, D 0 data → o.nat data = params.count)
    (hl : Packing params ins outs params.count l) :
    Safe (tracking .steady D) (Fit o params r) (exchangeMrInfo o r ins outs params.count) l
      fun res l' => 0 ≤ res.1 ∧ Connected o params ins res.2 (2 * params.mrCount + 4) 2 2 2 l' := by
  let I (l : Local) : Prop := l.digests = [] ∧ 2 * params.count ≤ l.stores.length
  refine ((undigested_exchange params.count).safe (I := I)
    (fit_bothWays (r := r) hsize hcount hl.stage hl.loads) ⟨hl.digests, hl.stores.ge⟩
    (fun _ _ _ _ hok => hok) fun l op a hop hI _ => ⟨(l.digests_upd hop a).trans hI.1,
      hI.2.trans (Local.extends_upd l op a).stores.length_le⟩).mono ?_
  rintro res l' ⟨⟨h0, hstage, hout, hread⟩, hdigests, hstores⟩
  exact ⟨h0, hstage, hout, hread, hdigests, hstores⟩

end calls

end ControlExec

end RdmaOpera
