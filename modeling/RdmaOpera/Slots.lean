import RdmaOpera.Buffers
import RdmaOpera.Plan

/-!
# Where the requests of a process lie

The layout of the request buffers as it stands in the history of the process, when no call fails:
request `i` is the slot `i % (count / mr_count)` of the `i / (count / mr_count)`-th block, and the
region with the same number covers that block.
-/

namespace RdmaOpera

open Lib Prog

/-- The `g`-th block allocated for the requests, and its region. -/
structure Group (params : DccsParameters) (l : Local) (g : Nat) (bufBase : Ptr) (mr : Option Mr) :
    Prop where
  ptr : bufBase.block = some g
  block : ∃ bytes, l.blocks[g]? = some ⟨bufBase.addr, bytes⟩ ∧ bytes.length = bufferLength params
  range : 0 < bufBase.addr ∧ bufBase.addr + bufferLength params ≤ 2 ^ 64
  region : ∃ m, mr = some m ∧ m.handle = g ∧
    l.regions[g]? = some ⟨accessOf params.verb, bufBase, bufferLength params, m.rkey⟩

/-- Request `i` as `allocate_buffer` fills it in. -/
structure Slot (params : DccsParameters) (l : Local) (i : Nat) (request : DccsRequest) : Prop where
  verb : request.verb = params.verb
  length : request.length = params.length
  laid : ∃ bufBase, Group params l (i / countPerMr params) bufBase request.mr ∧
    request.buf = bufBase.add (i % countPerMr params * params.length)

/-- All requests are laid out. -/
structure Slots (params : DccsParameters) (l : Local) (requests : List DccsRequest) : Prop where
  length : requests.length = params.count
  slot : ∀ i < params.count, Slot params l i (reqAt requests i)

/-- The block and the offset of request `i`. -/
def slotOf (params : DccsParameters) (i : Nat) : Nat × Nat :=
  (i / countPerMr params, i % countPerMr params * params.length)

/-- Where request `i` lies in memory. -/
def bufferOf (params : DccsParameters) (l : Local) (i : Nat) : Option Ptr :=
  l.blocks[i / countPerMr params]?.map fun block =>
    ⟨some (i / countPerMr params), block.base + i % countPerMr params * params.length⟩

section slots
variable {params : DccsParameters} {l l' : Local} {i : Nat} {request : DccsRequest}
  {requests : List DccsRequest}

theorem Group.extends {g : Nat} {bufBase : Ptr} {mr : Option Mr} (h : Group params l g bufBase mr)
    (he : l.Extends l') :
    Group params l' g bufBase mr := by
  obtain ⟨hp, ⟨bytes, hb, hlen⟩, hr, m, hm, hh, hreg⟩ := h
  exact ⟨hp, ⟨bytes, he.block hb, hlen⟩, hr, m, hm, hh, he.region hreg⟩

/-- The slots of a group fill it. -/
theorem Slot.offset_le (params : DccsParameters) (i : Nat) (hpos : 0 < countPerMr params) :
    i % countPerMr params * params.length + params.length ≤ countPerMr params * params.length := by
  rw [← Nat.succ_mul]
  exact Nat.mul_le_mul_right _ (Nat.mod_lt i hpos)

/-- If no size wraps, the key of a group and the address of a slot name that slot. -/
theorem Group.spot {g : Nat} {bufBase : Ptr} {mr : Option Mr} (h : Group params l g bufBase mr)
    (hpos : 0 < countPerMr params) (hsize : countPerMr params * params.length < 2 ^ 64) (i : Nat) :
    l.spot mr (bufBase.add (i % countPerMr params * params.length)).addr params.length =
      some (g, i % countPerMr params * params.length) := by
  obtain ⟨bytes, hblock, hlen⟩ := h.block
  obtain ⟨m, hm, hhandle, hregion⟩ := h.region
  have hle := Slot.offset_le params i hpos
  have hfit : bufferLength params = countPerMr params * params.length := sizeT_of_lt hsize
  rw [hm]
  refine Local.spot_of_place (hhandle ▸ hregion)
    (Local.place_of_covers h.ptr hblock (Nat.le_add_right _ _) ?_ ?_)
  · show bufBase.addr + _ + _ ≤ bufBase.addr + bufferLength params
    omega
  · show _ ≤ bytes.length
    omega

/-- The address of a slot fits 64 bits. -/
theorem Group.toNat_addr {g : Nat} {bufBase : Ptr} {mr : Option Mr} (h : Group params l g bufBase mr)
    (hpos : 0 < countPerMr params) (hsize : countPerMr params * params.length < 2 ^ 64)
    (hlength : 0 < params.length) (i : Nat) :
    (UInt64.ofNat (bufBase.add (i % countPerMr params * params.length)).addr).toNat =
      bufBase.addr + i % countPerMr params * params.length := by
  have hle := Slot.offset_le params i hpos
  have hfit : bufferLength params = countPerMr params * params.length := sizeT_of_lt hsize
  have hrange := h.range
  rw [Ptr.add_addr, UInt64.toNat_ofNat']
  exact Nat.mod_eq_of_lt (by omega)

theorem Slot.extends (h : Slot params l i request) (he : l.Extends l') :
    Slot params l' i request := by
  obtain ⟨hv, hl, bufBase, hg, hb⟩ := h
  exact ⟨hv, hl, bufBase, hg.extends he, hb⟩

theorem Slots.extends (h : Slots params l requests) (he : l.Extends l') :
    Slots params l' requests :=
  ⟨h.length, fun i hi => (h.slot i hi).extends he⟩

namespace Slot

/-- A slot is not made of the times and the remote side. -/
theorem of_same {request' : DccsRequest} (h : Slot params l i request)
    (hverb : request'.verb = request.verb) (hlength : request'.length = request.length)
    (hmr : request'.mr = request.mr) (hbuf : request'.buf = request.buf) :
    Slot params l i request' := by
  obtain ⟨hv, hl, bufBase, hg, hb⟩ := h
  exact ⟨hverb.trans hv, hlength.trans hl, bufBase, hmr ▸ hg, hbuf.trans hb⟩

theorem bufferOf (h : Slot params l i request) : bufferOf params l i = some request.buf := by
  obtain ⟨-, -, bufBase, hg, hb⟩ := h
  obtain ⟨bytes, hblock, -⟩ := hg.block
  rw [RdmaOpera.bufferOf, hblock, hb, Ptr.add, hg.ptr]
  rfl

/-- Whatever its key resolves to lies in the block of its group. -/
theorem spot_block (h : Slot params l i request) {addr len : Nat} {x : Nat × Nat}
    (hx : l.spot request.mr addr len = some x) :
    x.1 = i / countPerMr params := by
  obtain ⟨-, -, bufBase, hg, -⟩ := h
  obtain ⟨m, hm, hhandle, hregion⟩ := hg.region
  obtain ⟨m', region, hm', hregion', hplace⟩ := Local.spot_some hx
  obtain rfl := Option.some.inj (hm.symm.trans hm')
  rw [hhandle, hregion] at hregion'
  cases hregion'
  obtain ⟨block, hblock, -⟩ := Local.place_some hplace
  exact Option.some.inj (hblock.symm.trans hg.ptr)

/-- If no size wraps, the request names its slot. -/
theorem spot (h : Slot params l i request) (hpos : 0 < countPerMr params)
    (hsize : countPerMr params * params.length < 2 ^ 64) :
    l.spot request.mr request.buf.addr params.length = some (slotOf params i) := by
  obtain ⟨-, -, bufBase, hg, hbuf⟩ := h
  rw [hbuf]
  exact hg.spot hpos hsize i

/-- A remote key and an address of the request lead to its slot, and nowhere else. -/
theorem granted (h : Slot params l i request) (hpos : 0 < countPerMr params)
    (hsize : countPerMr params * params.length < 2 ^ 64) (hlength : 0 < params.length)
    (hkeys : l.DistinctKeys) {mr : Mr} (hmr : request.mr = some mr) {j : Nat} {region : Region}
    (hj : l.regions[j]? = some region) (hmsgs : region.access ≠ .msgs)
    (haccess : region.access = accessOf params.verb) (hkey : region.rkey = mr.rkey) {len : Nat}
    {x : Nat × Nat} (hx : l.place region (UInt64.ofNat request.buf.addr).toNat len = some x) :
    x = slotOf params i := by
  obtain ⟨-, -, bufBase, hg, hbuf⟩ := h
  obtain ⟨bytes, hblock, hlen⟩ := hg.block
  obtain ⟨m, hm, hhandle, hregion⟩ := hg.region
  obtain rfl := Option.some.inj (hm.symm.trans hmr)
  obtain rfl := hkeys j _ region _ hj hregion hmsgs (haccess ▸ hmsgs) hkey
  cases hj.symm.trans hregion
  rw [hbuf, hg.toNat_addr hpos hsize hlength] at hx
  obtain ⟨block, hptr, hblock', hoff, -⟩ := Local.place_some hx
  have hfst : i / countPerMr params = x.1 := Option.some.inj (hg.ptr.symm.trans hptr)
  rw [← hfst, hblock] at hblock'
  cases hblock'
  refine Prod.ext hfst.symm ?_
  show x.2 = i % countPerMr params * params.length
  have hoff : bufBase.addr + i % countPerMr params * params.length = bufBase.addr + x.2 := hoff
  omega

/-- While its region is registered, the key and the address of a request lead to its slot. -/
theorem remote (h : Slot params l i request) (hpos : 0 < countPerMr params)
    (hsize : countPerMr params * params.length < 2 ^ 64) (hlength : 0 < params.length)
    (hkeys : l.DistinctKeys) (hmsgs : accessOf params.verb ≠ .msgs) {mr : Mr} (hmr : request.mr = some mr)
    (hlive : i / countPerMr params ∉ l.dereged) :
    l.remote (accessOf params.verb) mr.rkey (UInt64.ofNat request.buf.addr).toNat params.length =
      some (slotOf params i) := by
  obtain ⟨-, -, bufBase, hg, hbuf⟩ := h
  obtain ⟨bytes, hblock, hlen⟩ := hg.block
  obtain ⟨m, hm, hhandle, hregion⟩ := hg.region
  obtain rfl := Option.some.inj (hm.symm.trans hmr)
  have hle := offset_le params i hpos
  have hfit : bufferLength params = countPerMr params * params.length := sizeT_of_lt hsize
  have hgranted := Local.granted_of_live hkeys hregion hlive hmsgs
  simp only at hgranted
  rw [Local.remote, hgranted, Option.bind_some, hbuf, hg.toNat_addr hpos hsize hlength]
  refine Local.place_of_covers hg.ptr hblock (Nat.le_add_right _ _) ?_ ?_
  · show bufBase.addr + _ + _ ≤ bufBase.addr + bufferLength params
    omega
  · show _ ≤ bytes.length
    omega

end Slot

/-- Different requests do not share memory. -/
theorem slotOf_apart (params : DccsParameters) {j : Nat} (hne : i ≠ j) :
    (slotOf params i).1 ≠ (slotOf params j).1 ∨
    (slotOf params i).2 + params.length ≤ (slotOf params j).2 ∨
      (slotOf params j).2 + params.length ≤ (slotOf params i).2 := by
  have hbefore : ∀ {a b : Nat}, a < b → a * params.length + params.length ≤ b * params.length := by
    intro a b hab
    rw [← Nat.succ_mul]
    exact Nat.mul_le_mul_right _ hab
  by_cases hgroup : i / countPerMr params = j / countPerMr params
  · right
    rcases Nat.lt_trichotomy (i % countPerMr params) (j % countPerMr params) with hlt | heq | hlt
    · exact .inl (hbefore hlt)
    · refine absurd ?_ hne
      rw [← Nat.div_add_mod i (countPerMr params),
        ← Nat.div_add_mod j (countPerMr params), hgroup, heq]
    · exact .inr (hbefore hlt)
  · exact .inl hgroup

end slots

/-! ## The loop of `allocate_buffer` -/

/-- The history of a process that has allocated the groups `gs`, and has done nothing else. -/
structure Allocated (params : DccsParameters) (gs : List Grant) (l : Local) : Prop where
  blocks : l.blocks.length = gs.length
  regions : l.regions.length = gs.length
  groups : ∀ (j : Nat) (g : Grant), gs[j]? = some g → Group params l j g.base g.mr
  rest : l = { blocks := l.blocks, regions := l.regions }

namespace Tracking

variable {plan : Plan} {R : Regime} {D : Nat → List UInt8 → Prop} {params : DccsParameters}

theorem mallocRandom {l : Local} {size : Nat} {Q : Option (Ptr × List UInt8) → Local → Prop}
    (hsize : R.live → size < 2 ^ 64) (hnone : ¬ R.calls → Q none l)
    (hq : ∀ (p : Ptr) (bytes : List UInt8), Fresh l p size → bytes.length = size →
      Q (some (p, bytes)) { l with blocks := l.blocks ++ [⟨p.addr, bytes⟩] }) :
    Safe (tracking R D) (plan.ok R) (Call.mallocRandom size) l Q := by
  refine ⟨⟨trivial, hsize⟩, fun a ha => ?_⟩
  cases a with
  | none =>
    refine hnone fun hc => ?_
    have := ha.calls hc
    simp [Unfailing] at this
  | some r =>
    obtain ⟨hf, hlen⟩ := ha.contract r.1 r.2 rfl
    exact hq r.1 r.2 hf hlen

theorem allocateGroup {l : Local} {gs : List Grant} (hcalls : R.calls) (hlive : ¬ R.live)
    (h : Allocated params gs l)
    (hplan : ∀ p : Ptr, p.block = some gs.length → plan.region (accessOf params.verb) p) :
    Safe (tracking R D) (plan.ok R) (RdmaOpera.allocateGroup params) l fun g l' =>
      Allocated params (gs ++ [g]) l' := by
  refine safe_bind.2 (mallocRandom (fun hl => absurd hl hlive) (fun hc => absurd hcalls hc)
    fun p bytes hfresh hlen => ?_)
  obtain ⟨hp, hlo, hhi⟩ := hfresh
  rw [h.blocks] at hp
  have hdereged : l.dereged = [] := by rw [h.rest]
  refine safe_bind.2 (regMr ⟨hplan p hp, .inr hdereged⟩ (fun hl => absurd hl hlive)
    (fun hc => absurd hcalls hc) fun mr hmr => ?_)
  let l' : Local :=
    { l with
      blocks := l.blocks ++ [⟨p.addr, bytes⟩]
      regions := l.regions ++ [⟨accessOf params.verb, p, bufferLength params, mr.rkey⟩] }
  have he : l.Extends l' :=
    { Local.Extends.refl l with blocks := List.prefix_append _ _, regions := List.prefix_append _ _ }
  show Allocated params (gs ++ [⟨some (p, bytes), some mr⟩]) l'
  refine ⟨by simp [l', h.blocks], by simp [l', h.regions], fun j g hj => ?_, ?_⟩
  · rcases getElem?_concat.1 hj with hj | ⟨rfl, rfl⟩
    · exact (h.groups j g hj).extends he
    · refine ⟨hp, ⟨bytes, ?_, hlen⟩, ⟨hlo, hhi⟩, mr, rfl, hmr.trans h.regions, ?_⟩
      · show (l.blocks ++ [_])[gs.length]? = _
        rw [← h.blocks]
        simp [Grant.base]
      · show (l.regions ++ [_])[gs.length]? = _
        rw [← h.regions]
        simp [Grant.base]
  · show ({ l with blocks := _, regions := _ } : Local) = _
    rw [h.rest]

/-- **All requests are laid out** behind `allocate_buffer`. -/
theorem allocateBuffer {requests : List DccsRequest} (h : Accepted params)
    (hlen : requests.length = params.count) (hcalls : R.calls) (hlive : ¬ R.live)
    (hplan : ∀ (p : Ptr) (b : Nat), p.block = some b → b < params.mrCount →
      plan.region (accessOf params.verb) p) :
    Safe (tracking R D) (plan.ok R) (RdmaOpera.allocateBuffer requests params) {} fun r l =>
      r.1 = 0 ∧ Slots params l r.2 ∧ l.blocks.length = params.mrCount ∧
      l.regions.length = params.mrCount ∧
        l = { blocks := l.blocks, regions := l.regions } := by
  refine (safe_allocateBuffer h hlen (Allocated params) ⟨rfl, rfl, by simp, rfl⟩ fun gs l hgs hI =>
    allocateGroup hcalls hlive hI fun p hp => hplan p _ hp hgs).mono ?_
  rintro r l ⟨hrv, gs, hgs, hI, hfilled⟩
  refine ⟨hrv, ⟨hfilled.length.trans hlen, fun i hi => ?_⟩, hI.blocks.trans hgs,
    hI.regions.trans hgs, hI.rest⟩
  obtain ⟨g, hg, hrequest⟩ := hfilled.done i hi
  rw [hrequest]
  exact ⟨rfl, rfl, g.base, hI.groups _ g hg, rfl⟩

end Tracking

end RdmaOpera
