import RdmaOpera.Lib.Bytes
import RdmaOpera.Lib.Growth
import RdmaOpera.Verbs

/-!
# Blocks, regions and what a work request points at

A work request names memory by an address and a key. `Local.spot` resolves a local key,
`Local.remote` a remote one, to a block and an offset in it. A process's history only grows
(`Extends`), so what has been resolved once stays where it is.
-/

namespace RdmaOpera

open Lib Prog

namespace Local

/-- The block and offset of a range inside region `r`. -/
def place (l : Local) (r : Region) (addr len : Nat) : Option (Nat × Nat) :=
  if r.ptr.addr ≤ addr ∧ addr + len ≤ r.ptr.addr + r.len then
    r.ptr.block.bind fun b => l.blocks[b]?.bind fun block =>
      if block.base ≤ addr ∧ addr + len ≤ block.base + block.bytes.length then some (b,
        addr - block.base) else none
  else none

/-- A range named by a local key. -/
def spot (l : Local) (mr : Option Mr) (addr len : Nat) : Option (Nat × Nat) :=
  mr.bind fun mr => l.regions[mr.handle]?.bind fun r => l.place r addr len

/-- The same while the region is registered. -/
def liveSpot (l : Local) (mr : Option Mr) (addr len : Nat) : Option (Nat × Nat) :=
  if ∃ m ∈ mr, m.handle ∈ l.dereged then none else l.spot mr addr len

/-- The registered region that grants `access` under `rkey`. -/
def granted (l : Local) (access : Access) (rkey : UInt32) : Option Region :=
  (l.regions.zipIdx.find? fun r => decide (r.2 ∉ l.dereged ∧ r.1.access = access ∧
    r.1.rkey = rkey)).map Prod.fst

/-- A range named by a remote key. -/
def remote (l : Local) (access : Access) (rkey : UInt32) (addr len : Nat) : Option (Nat × Nat) :=
  (l.granted access rkey).bind fun r => l.place r addr len

/-- The contents a block was handed out with. -/
def bytesOf (l : Local) (b : Nat) : List UInt8 := (l.blocks[b]?.map Block.bytes).getD []

/-- Where a range is in block `b`. -/
def offset (l : Local) (b addr len : Nat) : Option Nat :=
  l.blocks[b]?.bind fun block =>
    if block.base ≤ addr ∧ addr + len ≤ block.base + block.bytes.length then some (addr - block.base)
    else none

/-- The program may write `len` bytes at `p`. -/
def Covers (l : Local) (p : Ptr) (len : Nat) : Prop := ∃ b ∈ p.block, (l.offset b p.addr len).isSome

instance (l : Local) (p : Ptr) (len : Nat) : Decidable (l.Covers p len) :=
  inferInstanceAs (Decidable (∃ b ∈ p.block, _))

/-- What the program itself has written to block `b`. -/
def storesTo (l : Local) (b : Nat) : List (Nat × List UInt8) :=
  l.stores.filterMap fun s =>
    if s.1.block = some b then (l.offset b s.1.addr s.2.length).map fun off => (off, s.2) else none

/-- The contents of a block after the program's own writes. -/
def written (l : Local) (b : Nat) : List UInt8 := patched (l.storesTo b) (l.bytesOf b)

/-- The keys under which a peer may reach memory. -/
def liveKeys (l : Local) : List UInt32 :=
  (l.regions.zipIdx.filter fun r => decide (r.2 ∉ l.dereged ∧ r.1.access ≠ .msgs)).map
    fun r => r.1.rkey

/-- No two regions a peer may reach have the same key. -/
def DistinctKeys (l : Local) : Prop :=
  ∀ (i j : Nat) (r r' : Region), l.regions[i]? = some r → l.regions[j]? = some r' →
    r.access ≠ .msgs → r'.access ≠ .msgs →
    r.rkey = r'.rkey → i = j

/-- A key that is not in use yet, while no region has been given back. -/
theorem DistinctKeys.append {l : Local} (h : l.DistinctKeys) {region : Region} (hd : l.dereged = [])
    (hkey : region.rkey ∉ l.liveKeys) :
    ({ l with regions := l.regions ++ [region] } : Local).DistinctKeys := by
  have hfresh : ∀ (i : Nat) (r : Region), l.regions[i]? = some r → r.access ≠ .msgs →
    r.rkey ≠ region.rkey := by
    intro i r hi ha he
    refine hkey (List.mem_map.2 ⟨(r, i), List.mem_filter.2 ⟨List.mem_zipIdx_iff_getElem?.2 hi, ?_⟩, he⟩)
    simp [hd, ha]
  intro i j r r' hi hj ha ha' he
  rcases getElem?_concat.1 hi with hold | ⟨hi, hr⟩
  · rcases getElem?_concat.1 hj with hold' | ⟨-, hr'⟩
    · exact h i j r r' hold hold' ha ha' he
    · subst hr'
      exact absurd he (hfresh i r hold ha)
  · rcases getElem?_concat.1 hj with hold' | ⟨hj, -⟩
    · subst hr
      exact absurd he.symm (hfresh j r' hold' ha')
    · rw [hi, hj]

/-- A region for messages only. -/
theorem DistinctKeys.append_msgs {l : Local} (h : l.DistinctKeys) {region : Region}
    (ha : region.access = .msgs) :
    ({ l with regions := l.regions ++ [region] } : Local).DistinctKeys := by
  have hcases : ∀ (i : Nat) (r : Region), (l.regions ++ [region])[i]? = some r →
    r.access ≠ .msgs → l.regions[i]? = some r := by
    intro i r hi hr
    rcases getElem?_concat.1 hi with hi | ⟨-, rfl⟩
    · exact hi
    · exact absurd ha hr
  intro i j r r' hi hj har har' he
  exact h i j r r' (hcases i r hi har) (hcases j r' hj har') har har' he

/-! ## Resolution -/

theorem place_some {l : Local} {r : Region} {addr len : Nat} {x : Nat × Nat}
    (h : l.place r addr len = some x) :
    ∃ block, r.ptr.block = some x.1 ∧ l.blocks[x.1]? = some block ∧ addr = block.base + x.2 ∧
      x.2 + len ≤ block.bytes.length := by
  unfold place at h
  split at h
  · obtain ⟨b, hb, h⟩ := Option.bind_eq_some_iff.1 h
    obtain ⟨block, hblock, h⟩ := Option.bind_eq_some_iff.1 h
    split at h
    · cases h
      exact ⟨block, hb, hblock, by omega, by omega⟩
    · cases h
  · cases h

/-- A range of a block, in a region that covers it. -/
theorem place_of_covers {l : Local} {r : Region} {b off len : Nat} {block : Block}
    (hb : r.ptr.block = some b) (hblock : l.blocks[b]? = some block)
    (hlo : r.ptr.addr ≤ block.base + off) (hhi : block.base + off + len ≤ r.ptr.addr + r.len)
    (hlen : off + len ≤ block.bytes.length) :
    l.place r (block.base + off) len = some (b, off) := by
  rw [place, if_pos ⟨hlo, hhi⟩, hb]
  simp only [Option.bind_some, hblock]
  rw [if_pos ⟨by omega, by omega⟩, Nat.add_sub_cancel_left]

theorem spot_some {l : Local} {mr : Option Mr} {addr len : Nat} {x : Nat × Nat}
    (h : l.spot mr addr len = some x) :
    ∃ (m : Mr) (r : Region), mr = some m ∧ l.regions[m.handle]? = some r ∧
      l.place r addr len = some x := by
  obtain ⟨m, rfl, hm⟩ := Option.bind_eq_some_iff.1 h
  obtain ⟨r, hr, hx⟩ := Option.bind_eq_some_iff.1 hm
  exact ⟨m, r, rfl, hr, hx⟩

theorem spot_of_place {l : Local} {m : Mr} {r : Region} {addr len : Nat} {x : Nat × Nat}
    (hr : l.regions[m.handle]? = some r) (h : l.place r addr len = some x) :
    l.spot (some m) addr len = some x := by
  simp only [spot, Option.bind_some, hr, h]

theorem liveSpot_some {l : Local} {mr : Option Mr} {addr len : Nat} {x : Nat × Nat}
    (h : l.liveSpot mr addr len = some x) : l.spot mr addr len = some x := by
  unfold liveSpot at h
  split at h
  · cases h
  · exact h

theorem granted_some {l : Local} {access : Access} {rkey : UInt32} {r : Region}
    (h : l.granted access rkey = some r) :
    ∃ j, l.regions[j]? = some r ∧ j ∉ l.dereged ∧ r.access = access ∧ r.rkey = rkey := by
  obtain ⟨⟨r', j⟩, hf, rfl⟩ := Option.map_eq_some_iff.1 h
  have hmem := List.mem_of_find?_eq_some hf
  have hp := of_decide_eq_true (List.find?_some (p := fun r => decide _) hf)
  exact ⟨j, List.mem_zipIdx_iff_getElem?.1 hmem, hp⟩

/-- A key that is in use leads to its region. -/
theorem granted_of_live {l : Local} (hkeys : l.DistinctKeys) {j : Nat} {region : Region}
    (hj : l.regions[j]? = some region) (hlive : j ∉ l.dereged) (hmsgs : region.access ≠ .msgs) :
    l.granted region.access region.rkey = some region := by
  cases hg : l.granted region.access region.rkey with
  | none =>
    have hnone := List.find?_eq_none.1 (Option.map_eq_none_iff.1 hg) (region, j)
      (List.mem_zipIdx_iff_getElem?.2 hj)
    simp [hlive] at hnone
  | some r =>
    obtain ⟨i, hi, -, ha, hkey⟩ := granted_some hg
    obtain rfl := hkeys i j r region hi hj (ha ▸ hmsgs) hmsgs hkey
    rw [hi] at hj
    exact hj

theorem bytesOf_eq {l : Local} {b : Nat} {block : Block} (h : l.blocks[b]? = some block) :
    l.bytesOf b = block.bytes := by
  simp [bytesOf, h]

theorem offset_some {l : Local} {b addr len off : Nat} (h : l.offset b addr len = some off) :
    ∃ block, l.blocks[b]? = some block ∧ addr = block.base + off ∧
      off + len ≤ block.bytes.length := by
  obtain ⟨block, hblock, h⟩ := Option.bind_eq_some_iff.1 h
  split at h
  · cases h
    exact ⟨block, hblock, by omega, by omega⟩
  · cases h

theorem offset_of_covers {l : Local} {b off len : Nat} {block : Block} (hb : l.blocks[b]? = some block)
    (hlen : off + len ≤ block.bytes.length) : l.offset b (block.base + off) len = some off := by
  simp only [offset, hb, Option.bind_some]
  rw [if_pos ⟨by omega, by omega⟩, Nat.add_sub_cancel_left]

theorem mem_storesTo_iff {l : Local} {b : Nat} {p : Nat × List UInt8} : p ∈ l.storesTo b ↔
    ∃ s ∈ l.stores, s.1.block = some b ∧ l.offset b s.1.addr s.2.length = some p.1 ∧ s.2 = p.2 := by
  rw [storesTo, List.mem_filterMap]
  constructor
  · rintro ⟨s, hs, hp⟩
    split at hp
    · obtain ⟨off, hoff, rfl⟩ := Option.map_eq_some_iff.1 hp
      exact ⟨s, hs, ‹_›, hoff, rfl⟩
    · cases hp
  · rintro ⟨s, hs, hb, hoff, he⟩
    refine ⟨s, hs, ?_⟩
    rw [if_pos hb, hoff, he]
    rfl

theorem inside_storesTo (l : Local) (b : Nat) : Inside (l.storesTo b) (l.bytesOf b).length := by
  intro p hp
  obtain ⟨s, -, -, hoff, he⟩ := mem_storesTo_iff.1 hp
  obtain ⟨block, hblock, -, hlen⟩ := offset_some hoff
  rw [bytesOf_eq hblock, ← he]
  exact hlen

@[simp] theorem length_written (l : Local) (b : Nat) : (l.written b).length = (l.bytesOf b).length :=
  length_patched (l.inside_storesTo b)

/-- A block the program has not written to. -/
theorem written_eq {l : Local} {b : Nat} (h : ∀ s ∈ l.stores, s.1.block ≠ some b) :
    l.written b = l.bytesOf b := by
  have hnil : l.storesTo b = [] := List.filterMap_eq_nil_iff.2 fun s hs => if_neg (h s hs)
  rw [written, hnil]
  rfl

/-! ## Histories only grow -/

/-- `l'` is a later history of the same process. -/
structure Extends (l l' : Local) : Prop where
  blocks : l.blocks <+: l'.blocks
  regions : l.regions <+: l'.regions
  sq : l.sq <+: l'.sq
  rq : l.rq <+: l'.rq
  sWcs : l.sWcs <+: l'.sWcs
  rWcs : l.rWcs <+: l'.rWcs
  loads : l.loads <+: l'.loads
  stores : l.stores <+: l'.stores

theorem Extends.refl (l : Local) : Extends l l where
  blocks := List.prefix_rfl
  regions := List.prefix_rfl
  sq := List.prefix_rfl
  rq := List.prefix_rfl
  sWcs := List.prefix_rfl
  rWcs := List.prefix_rfl
  loads := List.prefix_rfl
  stores := List.prefix_rfl

theorem Extends.trans {l l' l'' : Local} (h : Extends l l') (h' : Extends l' l'') :
    Extends l l'' where
  blocks := h.blocks.trans h'.blocks
  regions := h.regions.trans h'.regions
  sq := h.sq.trans h'.sq
  rq := h.rq.trans h'.rq
  sWcs := h.sWcs.trans h'.sWcs
  rWcs := h.rWcs.trans h'.rWcs
  loads := h.loads.trans h'.loads
  stores := h.stores.trans h'.stores

theorem extends_upd (l : Local) (op : VOp) (a : op.Ans) : Extends l (l.upd op a) := by
  have hblock : ∀ b, Extends l { l with blocks := l.blocks ++ [b] } := fun b =>
    { Extends.refl l with blocks := List.prefix_append _ _ }
  cases op with
  | stackVar bytes => exact hblock _
  | malloc bytes =>
    cases a with
    | none => exact .refl l
    | some p => exact hblock _
  | mallocRandom size =>
    cases a with
    | none => exact .refl l
    | some p => exact hblock _
  | regMr access p len =>
    cases a with
    | none => exact .refl l
    | some mr => exact { Extends.refl l with regions := List.prefix_append _ _ }
  | postSend wr =>
    by_cases h : a = (0 : Int)
    · simp only [upd, if_pos h]; exact { Extends.refl l with sq := List.prefix_append _ _ }
    · simp only [upd, if_neg h]; exact .refl l
  | postRecv wr =>
    by_cases h : a = (0 : Int)
    · simp only [upd, if_pos h]; exact { Extends.refl l with rq := List.prefix_append _ _ }
    · simp only [upd, if_neg h]; exact .refl l
  | pollSend num => exact { Extends.refl l with sWcs := List.prefix_append _ _ }
  | pollRecv => exact { Extends.refl l with rWcs := List.prefix_append _ _ }
  | load p len => exact { Extends.refl l with loads := List.prefix_append _ _ }
  | store p bytes => exact { Extends.refl l with stores := List.prefix_append _ _ }
  | _ => exact { Extends.refl l with }

/-- Only a store writes. -/
theorem stores_upd (l : Local) {op : VOp} (h : ∀ p bytes, op ≠ .store p bytes) (a : op.Ans) :
    (l.upd op a).stores = l.stores := by
  cases op with
  | store p bytes => exact absurd rfl (h p bytes)
  | malloc bytes => cases a <;> rfl
  | mallocRandom size => cases a <;> rfl
  | regMr access p len => cases a <;> rfl
  | postSend wr | postRecv wr =>
    simp only [upd]
    split <;> rfl
  | _ => rfl

namespace Extends

variable {l l' : Local} (h : Extends l l')
include h

theorem block {b : Nat} {block : Block} (hb : l.blocks[b]? = some block) :
    l'.blocks[b]? = some block :=
  getElem?_mono h.blocks hb

theorem region {j : Nat} {r : Region} (hr : l.regions[j]? = some r) : l'.regions[j]? = some r :=
  getElem?_mono h.regions hr

theorem sent {k : Nat} {wr : SendWr} (hk : l.sq[k]? = some wr) : l'.sq[k]? = some wr :=
  getElem?_mono h.sq hk

theorem received {k : Nat} {wr : RecvWr} (hk : l.rq[k]? = some wr) : l'.rq[k]? = some wr :=
  getElem?_mono h.rq hk

theorem loaded {j : Nat} {data : List UInt8} (hj : l.loads[j]? = some data) :
    l'.loads[j]? = some data :=
  getElem?_mono h.loads hj

theorem bytesOf {b : Nat} {block : Block} (hb : l.blocks[b]? = some block) :
    l'.bytesOf b = l.bytesOf b := by
  rw [bytesOf_eq hb, bytesOf_eq (h.block hb)]

/-- Nothing has been written since. -/
theorem written {b : Nat} {block : Block} (hb : l.blocks[b]? = some block) (hs : l'.stores = l.stores) :
    l'.written b = l.written b := by
  have hoffset : l'.offset b = l.offset b := by
    funext addr len
    simp only [offset, hb, h.block hb]
  rw [Local.written, Local.written, storesTo, storesTo, hs, hoffset, h.bytesOf hb]

theorem place {r : Region} {addr len : Nat} {x : Nat × Nat} (hx : l.place r addr len = some x) :
    l'.place r addr len = some x := by
  unfold Local.place at hx ⊢
  split at hx
  · rename_i hc
    obtain ⟨b, hb, hx⟩ := Option.bind_eq_some_iff.1 hx
    obtain ⟨block, hblock, hx⟩ := Option.bind_eq_some_iff.1 hx
    simp only [if_pos hc, hb, Option.bind_some, h.block hblock, hx]
  · cases hx

theorem spot {mr : Option Mr} {addr len : Nat} {x : Nat × Nat} (hx : l.spot mr addr len = some x) :
    l'.spot mr addr len = some x := by
  obtain ⟨m, r, rfl, hr, hx⟩ := spot_some hx
  exact spot_of_place (h.region hr) (h.place hx)

end Extends

end Local

end RdmaOpera
