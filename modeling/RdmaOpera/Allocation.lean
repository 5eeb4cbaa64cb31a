import RdmaOpera.Buffers
import RdmaOpera.Lib.Range

/-!
# `allocate_buffer` against arbitrary answers of the library

The monitor `allocating` writes the calls down. What `malloc_random` returns is new and not `NULL`,
everything may fail. The layout of the buffers when nothing fails (`allocateBuffer_layout`), and
what the result says when something does: nothing, since it is 0 in any case
(`failureReported_iff`).
-/

namespace RdmaOpera

open Lib Prog

/-! ## The calls that allocate -/

/-- A call of `malloc_random`: the size, and the answer. -/
def mallocOf : Event Verbs → Option (Nat × Option (Ptr × List UInt8))
  | ⟨.mallocRandom size, (a : Option (Ptr × List UInt8))⟩ => some (size, a)
  | _ => none

structure Registration where
  access : Access
  ptr : Ptr
  len : Nat
  mr : Option Mr

def registrationOf : Event Verbs → Option Registration
  | ⟨.regMr access p len, (mr : Option Mr)⟩ => some ⟨access, p, len, mr⟩
  | _ => none

def mallocsOf (tr : List (Event Verbs)) : List (Nat × Option (Ptr × List UInt8)) :=
  tr.filterMap mallocOf

def registrationsOf (tr : List (Event Verbs)) : List Registration := tr.filterMap registrationOf

theorem mallocsOf_append (tr tr' : List (Event Verbs)) :
    mallocsOf (tr ++ tr') = mallocsOf tr ++ mallocsOf tr' :=
  List.filterMap_append

theorem registrationsOf_append (tr tr' : List (Event Verbs)) :
    registrationsOf (tr ++ tr') = registrationsOf tr ++ registrationsOf tr' := List.filterMap_append

/-- A new block is identified by the number of the call that returned it, and is not `NULL`. -/
def NewBlock (tr : List (Event Verbs)) : (op : VOp) → op.Ans → Prop
  | .mallocRandom _, (some (p, _) : Option (Ptr × List UInt8)) =>
    p.block = some (mallocsOf tr).length ∧ 0 < p.addr
  | _, _ => True

def allocating : Monitor Verbs (List (Event Verbs)) where
  upd tr op a := tr ++ [⟨op, a⟩]
  adm := NewBlock
  spins := True

/-- An allocation or a registration that did not fail. -/
def Granted : (op : VOp) → op.Ans → Prop
  | .mallocRandom _, (a : Option (Ptr × List UInt8)) => a.isSome
  | .regMr .., (mr : Option Mr) => mr.isSome
  | _, _ => True

def AllGranted (tr : List (Event Verbs)) : Prop := ∀ e ∈ tr, Granted e.op e.ans

theorem allGranted_iff {tr : List (Event Verbs)} :
    AllGranted tr ↔ (∀ x ∈ mallocsOf tr, x.2.isSome) ∧ ∀ x ∈ registrationsOf tr, x.mr.isSome := by
  constructor
  · intro h
    constructor
    · intro x hx
      obtain ⟨⟨op, a⟩, he, hx⟩ := List.mem_filterMap.1 hx
      have hg := h _ he
      cases op with
      | mallocRandom size => cases hx; exact hg
      | _ => cases hx
    · intro x hx
      obtain ⟨⟨op, a⟩, he, hx⟩ := List.mem_filterMap.1 hx
      have hg := h _ he
      cases op with
      | regMr access p len => cases hx; exact hg
      | _ => cases hx
  · rintro ⟨hm, hr⟩ ⟨op, a⟩ he
    cases op with
    | mallocRandom size => exact hm (size, a) (List.mem_filterMap.2 ⟨_, he, rfl⟩)
    | regMr access p len => exact hr ⟨access, p, len, a⟩ (List.mem_filterMap.2 ⟨_, he, rfl⟩)
    | _ => trivial

/-- The calls of the groups `gs`, in order. -/
structure Recorded (params : DccsParameters) (gs : List Grant) (tr : List (Event Verbs)) :
    Prop where
  mallocs : mallocsOf tr = gs.map fun g => (bufferLength params, g.buf)
  registrations : registrationsOf tr = gs.map fun g =>
    ⟨accessOf params.verb, g.base, bufferLength params, g.mr⟩
  fresh : ∀ (j : Nat) (g : Grant), gs[j]? = some g → ∀ p bytes, g.buf = some (p, bytes) →
    p.block = some j ∧ 0 < p.addr

section
variable {params : DccsParameters} {requests requests' : List DccsRequest} {tr : List (Event Verbs)} {rv : Int}

theorem safe_allocateGroup {gs : List Grant} (h : Recorded params gs tr) :
    Safe allocating (fun _ _ => True) (allocateGroup params) tr fun g tr' =>
      Recorded params (gs ++ [g]) tr' := by
  obtain ⟨hm, hr, hf⟩ := h
  have hlen : (mallocsOf tr).length = gs.length := by rw [hm, List.length_map]
  -- the group recorded, with or without a message about the registration
  have hgroup : ∀ (buf : Option (Ptr × List UInt8)) (mr : Option Mr) (log : List (Event Verbs)),
      NewBlock tr (.mallocRandom (bufferLength params)) buf → mallocsOf log = [] →
        registrationsOf log = [] →
      Recorded params (gs ++ [⟨buf, mr⟩])
        (tr ++ [⟨.mallocRandom (bufferLength params), buf⟩] ++
          [⟨.regMr (accessOf params.verb) ((buf.map Prod.fst).getD .null) (bufferLength params),
            mr⟩] ++ log) := by
    intro buf mr log hbuf hlm hlr
    refine ⟨?_, ?_, ?_⟩
    · rw [mallocsOf_append, mallocsOf_append, mallocsOf_append, hm, hlm, List.map_append,
        List.append_nil]
      exact List.append_nil _
    · rw [registrationsOf_append, registrationsOf_append, registrationsOf_append, hr, hlr,
        List.map_append, List.append_nil]
      exact congrArg (· ++ _) (List.append_nil _)
    · intro j g hj p bytes hp
      rcases getElem?_concat.1 hj with hj | ⟨rfl, rfl⟩
      · exact hf j g hj p bytes hp
      · have hp : buf = some (p, bytes) := hp
        rw [hp] at hbuf
        rw [← hlen]
        exact hbuf
  refine safe_bind.2 ⟨trivial, fun buf hbuf => ?_⟩
  refine safe_bind.2 (safe_bind.2 ⟨trivial, fun mr _ => ?_⟩)
  cases mr with
  | none =>
    refine safe_bind.2 ⟨trivial, fun u _ => ?_⟩
    exact hgroup buf none [⟨.logError _, u⟩] hbuf rfl rfl
  | some mr =>
    have := hgroup buf (some mr) [] hbuf rfl rfl
    rw [List.append_nil] at this
    exact this

/-- Every run of `allocate_buffer` returns 0, having asked for `mr_count` blocks and regions. -/
theorem allocateBuffer_recorded (h : Accepted params) (hlen : requests.length = params.count)
    (hret : Reach allocating (allocateBuffer requests params) [] (.ret (rv, requests')) tr) :
    rv = 0 ∧ ∃ gs, gs.length = params.mrCount ∧ Recorded params gs tr ∧
      Filled params requests gs params.count requests' := by
  have hsafe : Safe allocating (fun _ _ => True) (allocateBuffer requests params) [] fun r tr =>
      r.1 = 0 ∧ ∃ gs, gs.length = params.mrCount ∧ Recorded params gs tr ∧
        Filled params requests gs params.count r.2 := by
    refine safe_allocateBuffer h hlen (Recorded params) ⟨rfl, rfl, by simp⟩ fun gs tr' _ hrec => ?_
    exact safe_allocateGroup hrec
  exact hsafe.reach hret

/-! ## The layout -/

/-- The bytes of a request. -/
def DccsRequest.range (request : DccsRequest) : Range := ⟨request.buf.addr, request.length⟩

/-- They lie in a block that was returned. -/
def InBlock (tr : List (Event Verbs)) (request : DccsRequest) : Prop :=
  ∃ len p bytes, (len, some (p, bytes)) ∈ mallocsOf tr ∧ request.buf.block = p.block ∧
    request.range.Within ⟨p.addr, len⟩

/-- The `j`-th block, at `p`, and the region registered for it. -/
structure Backed (tr : List (Event Verbs)) (j : Nat) (p : Ptr) (len : Nat) (mr : Mr) : Prop where
  block : ∃ bytes, (mallocsOf tr)[j]? = some (len, some (p, bytes))
  region : ∃ access, (registrationsOf tr)[j]? = some ⟨access, p, len, some mr⟩

/-- The blocks returned do not overlap. -/
def BlocksApart (tr : List (Event Verbs)) : Prop :=
  (mallocsOf tr).Pairwise fun x y => ∀ p bytes q bytes', x.2 = some (p, bytes) →
    y.2 = some (q, bytes') →
    Range.Apart ⟨p.addr, x.1⟩ ⟨q.addr, y.1⟩

structure BufferLayout (params : DccsParameters) (tr : List (Event Verbs))
    (requests' : List DccsRequest) : Prop where
  mallocs : (mallocsOf tr).length = params.mrCount
  registrations : (registrationsOf tr).length = params.mrCount
  length : ∀ n < params.count, (reqAt requests' n).length = params.length
  inside : ∀ n < params.count, ∃ j p len mr, Backed tr j p len mr ∧
    (reqAt requests' n).mr = some mr ∧
    (reqAt requests' n).buf.block = p.block ∧ (reqAt requests' n).range.Within ⟨p.addr, len⟩
  apart : ∀ n < params.count, ∀ n' < params.count, n ≠ n' →
    (reqAt requests' n).range.Apart (reqAt requests' n').range
  covered : ∀ j p len mr, Backed tr j p len mr → ∀ a, Range.Contains ⟨p.addr, len⟩ a →
    ∃ n < params.count, (reqAt requests' n).mr = some mr ∧ (reqAt requests' n).buf.block = p.block ∧
      (reqAt requests' n).range.Contains a

namespace Recorded

variable {gs : List Grant} (h : Recorded params gs tr)
include h

/-- The block of a group, if none was refused. -/
theorem block (hg : ∀ x ∈ mallocsOf tr, x.2.isSome) {j : Nat} {g : Grant} (hj : gs[j]? = some g) :
    ∃ bytes, g.buf = some (g.base, bytes) ∧
      (mallocsOf tr)[j]? = some (bufferLength params, some (g.base, bytes)) := by
  have hmem := List.mem_of_getElem? hj
  have hbuf : g.buf.isSome :=
    hg (bufferLength params, g.buf) (by rw [h.mallocs]; exact List.mem_map.2 ⟨g, hmem, rfl⟩)
  obtain ⟨⟨p, bytes⟩, hbuf⟩ := Option.isSome_iff_exists.1 hbuf
  have hbase : g.base = p := by rw [Grant.base, hbuf]; rfl
  refine ⟨bytes, by rw [hbase, hbuf], ?_⟩
  rw [h.mallocs, List.getElem?_map, hj, hbase, ← hbuf]
  rfl

/-- The block and the region of a group that was granted. -/
theorem backed (hg : AllGranted tr) {j : Nat} {g : Grant} (hj : gs[j]? = some g) :
    ∃ p mr, Backed tr j p (bufferLength params) mr ∧ g.base = p ∧ g.mr = some mr := by
  obtain ⟨hm, hr⟩ := allGranted_iff.1 hg
  obtain ⟨bytes, -, hblock⟩ := h.block hm hj
  have hmem := List.mem_of_getElem? hj
  have hmr : g.mr.isSome :=
    hr ⟨accessOf params.verb, g.base, bufferLength params, g.mr⟩
      (by rw [h.registrations]; exact List.mem_map.2 ⟨g, hmem, rfl⟩)
  obtain ⟨mr, hmr⟩ := Option.isSome_iff_exists.1 hmr
  refine ⟨g.base, mr, ⟨⟨bytes, hblock⟩, accessOf params.verb, ?_⟩, rfl, hmr⟩
  rw [h.registrations, List.getElem?_map, hj, ← hmr]
  rfl

theorem of_backed {j : Nat} {p : Ptr} {len : Nat} {mr : Mr} (hb : Backed tr j p len mr) :
    len = bufferLength params ∧ ∃ g, gs[j]? = some g ∧ g.base = p ∧ g.mr = some mr := by
  obtain ⟨⟨bytes, hblock⟩, access, hregion⟩ := hb
  rw [h.mallocs, List.getElem?_map] at hblock
  rw [h.registrations, List.getElem?_map] at hregion
  obtain ⟨g, hg, hblock⟩ := Option.map_eq_some_iff.1 hblock
  rw [hg] at hregion
  obtain ⟨rfl, -⟩ := Prod.mk.inj hblock
  obtain ⟨-, hbase, -, hmr⟩ := Registration.mk.inj (Option.some.inj hregion)
  exact ⟨rfl, g, hg, hbase, hmr⟩

end Recorded

/-- A request is the cell of its block that its index in the group says. -/
theorem range_laidRequest (g : Grant) (n : Nat) (request : DccsRequest) (len : Nat) :
    (laidRequest params g n request).range = Range.cell ⟨g.base.addr, len⟩ params.length
      (n % countPerMr params) := rfl

/-- Two requests do not overlap: they are different cells of a block, or cells of two blocks. -/
theorem Recorded.apart {gs : List Grant} (hrec : Recorded params gs tr) (h : Accepted params)
    (hfilled : Filled params requests gs params.count requests')
    (hg : ∀ x ∈ mallocsOf tr, x.2.isSome) (hfit : countPerMr params * params.length < 2 ^ 64)
    (hapart : BlocksApart tr) {n n' : Nat} (hn : n < params.count) (hn' : n' < params.count)
    (hne : n ≠ n') : (reqAt requests' n).range.Apart (reqAt requests' n').range := by
  have hsize : bufferLength params = countPerMr params * params.length := sizeT_of_lt hfit
  have hcell : ∀ (p : Ptr) (n : Nat),
    (Range.cell ⟨p.addr, bufferLength params⟩ params.length (n % countPerMr params)).Within
      ⟨p.addr, bufferLength params⟩ :=
        fun p n => Range.cell_within hsize (Nat.mod_lt n h.countPerMr_pos)
  obtain ⟨g, hj, hr⟩ := hfilled.done n hn
  obtain ⟨g', hj', hr'⟩ := hfilled.done n' hn'
  rw [hr, hr', range_laidRequest g n _ (bufferLength params),
    range_laidRequest g' n' _ (bufferLength params)]
  by_cases hgroup : n / countPerMr params = n' / countPerMr params
  · rw [← hgroup, hj] at hj'
    cases hj'
    refine Range.cell_apart fun hmod => hne ?_
    rw [← Nat.div_add_mod n (countPerMr params),
      ← Nat.div_add_mod n' (countPerMr params), hgroup, hmod]
  · obtain ⟨bytes, -, hblock⟩ := hrec.block hg hj
    obtain ⟨bytes', -, hblock'⟩ := hrec.block hg hj'
    have hblocks : Range.Apart ⟨g.base.addr, bufferLength params⟩ ⟨g'.base.addr,
      bufferLength params⟩ := by
      have hpair := List.pairwise_iff_getElem.1 hapart
      obtain ⟨hlt, he⟩ := List.getElem?_eq_some_iff.1 hblock
      obtain ⟨hlt', he'⟩ := List.getElem?_eq_some_iff.1 hblock'
      rcases Nat.lt_or_gt_of_ne hgroup with horder | horder
      · have := hpair _ _ hlt hlt' horder g.base bytes g'.base bytes' (by rw [he]) (by rw [he'])
        rwa [he, he'] at this
      · have := hpair _ _ hlt' hlt horder g'.base bytes' g.base bytes (by rw [he']) (by rw [he])
        rw [he, he'] at this
        exact this.symm
    exact hblocks.of_within (hcell g.base n) (hcell g'.base n')

/-- **Buffer layout.** When every call succeeds and the size of a block does not wrap. -/
theorem allocateBuffer_layout (h : Accepted params) (hlen : requests.length = params.count)
    (hfit : countPerMr params * params.length < 2 ^ 64)
    (hret : Reach allocating (allocateBuffer requests params) [] (.ret (rv, requests')) tr)
    (hgranted : AllGranted tr) (hapart : BlocksApart tr) : BufferLayout params tr requests' := by
  obtain ⟨-, gs, hgs, hrec, hfilled⟩ := allocateBuffer_recorded h hlen hret
  have hpos := h.countPerMr_pos
  have hsize : bufferLength params = countPerMr params * params.length := sizeT_of_lt hfit
  have hrequest : ∀ n < params.count, ∃ g p mr, gs[n / countPerMr params]? = some g ∧
      reqAt requests' n = laidRequest params g n (reqAt requests n) ∧ g.base = p ∧ g.mr = some mr ∧
      Backed tr (n / countPerMr params) p (bufferLength params) mr := by
    intro n hn
    obtain ⟨g, hg, hr⟩ := hfilled.done n hn
    obtain ⟨p, mr, hb, hbase, hmr⟩ := hrec.backed hgranted hg
    exact ⟨g, p, mr, hg, hr, hbase, hmr, hb⟩
  have hcell : ∀ (p : Ptr) (n : Nat),
    (Range.cell ⟨p.addr, bufferLength params⟩ params.length (n % countPerMr params)).Within
      ⟨p.addr, bufferLength params⟩ := fun p n => Range.cell_within hsize (Nat.mod_lt n hpos)
  constructor
  · rw [hrec.mallocs, List.length_map, hgs]
  · rw [hrec.registrations, List.length_map, hgs]
  · intro n hn
    obtain ⟨g, p, mr, -, hr, -⟩ := hrequest n hn
    rw [hr]
    rfl
  · intro n hn
    obtain ⟨g, p, mr, -, hr, rfl, hmr, hb⟩ := hrequest n hn
    refine ⟨_, _, _, mr, hb, ?_, ?_, ?_⟩
    · rw [hr]
      exact hmr
    · rw [hr]
      rfl
    · rw [hr, range_laidRequest g n _ (bufferLength params)]
      exact hcell g.base n
  · intro n hn n' hn' hne
    exact hrec.apart h hfilled (allGranted_iff.1 hgranted).1 hfit hapart hn hn' hne
  · intro j p len mr hb a ha
    obtain ⟨rfl, g, hg, rfl, hmr⟩ := hrec.of_backed hb
    obtain ⟨i, hi, hcontains⟩ := Range.exists_cell hsize ha
    have hj : j < params.mrCount := by
      rw [← hgs]
      exact (List.getElem?_eq_some_iff.1 hg).1
    have hdiv : (j * countPerMr params + i) / countPerMr params = j := by
      rw [Nat.mul_comm, Nat.mul_add_div hpos, Nat.div_eq_of_lt hi, Nat.add_zero]
    have hmod : (j * countPerMr params + i) % countPerMr params = i := by
      rw [Nat.mul_comm, Nat.mul_add_mod, Nat.mod_eq_of_lt hi]
    have hn : j * countPerMr params + i < params.count := by
      rw [← h.countPerMr_mul]
      have : (j + 1) * countPerMr params ≤ params.mrCount * countPerMr params :=
        Nat.mul_le_mul_right _ hj
      rw [Nat.succ_mul] at this
      omega
    obtain ⟨g', hg', hr⟩ := hfilled.done _ hn
    rw [hdiv, hg] at hg'
    cases hg'
    refine ⟨_, hn, ?_, ?_, ?_⟩
    · rw [hr]
      exact hmr
    · rw [hr]
      rfl
    · rw [hr, range_laidRequest g _ _ (bufferLength params), hmod]
      exact hcontains

end

def fourCalls : List (Event Verbs) :=
  [⟨.mallocRandom 16, some (⟨some 0, 4096⟩, List.replicate 16 0)⟩,
    ⟨.regMr .msgs ⟨some 0, 4096⟩ 16, some ⟨0, 7⟩⟩,
    ⟨.mallocRandom 16, some (⟨some 1, 8192⟩, List.replicate 16 0)⟩,
      ⟨.regMr .msgs ⟨some 1, 8192⟩ 16, some ⟨1, 8⟩⟩]

theorem reach_fourCalls : ∃ requests',
    Reach allocating (allocateBuffer (List.replicate 4 {}) fourRequests) [] (.ret (0, requests')) fourCalls :=
  ⟨_, .call (some (⟨some 0, 4096⟩, List.replicate 16 0)) ⟨rfl, by decide⟩
    (.call (some ⟨0, 7⟩) trivial
    (.call (some (⟨some 1, 8192⟩, List.replicate 16 0)) ⟨rfl, by decide⟩
    (.call (some ⟨1, 8⟩) trivial (.refl _ _))))⟩

theorem allGranted_fourCalls : AllGranted fourCalls := by simp [AllGranted, fourCalls, Granted]

theorem allocateBuffer_layout_fourRequests :
    ∃ requests', BufferLayout fourRequests fourCalls requests' := by
  obtain ⟨requests', hret⟩ := reach_fourCalls
  refine ⟨requests', allocateBuffer_layout accepted_fourRequests rfl (by decide) hret allGranted_fourCalls ?_⟩
  have hm : mallocsOf fourCalls =
      [(16, some (⟨some 0, 4096⟩, List.replicate 16 0)),
        (16, some (⟨some 1, 8192⟩, List.replicate 16 0))] := rfl
  rw [BlocksApart, hm]
  refine List.pairwise_pair.2 ?_
  rintro p bytes q bytes' hp hq
  cases hp
  cases hq
  decide

/-! ## When something fails -/

/-- A request that can be posted. -/
structure Usable (tr : List (Event Verbs)) (request : DccsRequest) : Prop where
  buf : request.buf.addr ≠ 0
  block : ∃ len p bytes, (len, some (p, bytes)) ∈ mallocsOf tr ∧ request.buf.block = p.block ∧
    request.range.Within ⟨p.addr, len⟩
  mr : request.mr.isSome

/-- The result is 0 only if every request can be posted. -/
def FailureReported (params : DccsParameters) (tr : List (Event Verbs)) (rv : Int)
    (requests' : List DccsRequest) : Prop :=
  rv = 0 → ∀ n < params.count, Usable tr (reqAt requests' n)

section
variable {params : DccsParameters} {requests requests' : List DccsRequest} {tr : List (Event Verbs)} {rv : Int}

/-- A request in a block is in that of its group. -/
theorem Recorded.of_inBlock {gs : List Grant} (h : Recorded params gs tr) {n : Nat} {g : Grant}
    {request : DccsRequest} (hg : gs[n / countPerMr params]? = some g)
    (hin : InBlock tr (laidRequest params g n request)) :
    g.buf.isSome ∧
      (Range.cell ⟨g.base.addr, bufferLength params⟩ params.length (n % countPerMr params)).Within
      ⟨g.base.addr, bufferLength params⟩ := by
  obtain ⟨len, p, bytes, hmem, hblock, hwithin⟩ := hin
  rw [h.mallocs] at hmem
  obtain ⟨g', hg', he⟩ := List.mem_map.1 hmem
  obtain ⟨rfl, hbuf'⟩ := Prod.mk.inj he
  obtain ⟨j, hj⟩ := List.getElem?_of_mem hg'
  obtain ⟨hpj, -⟩ := h.fresh j g' hj p bytes hbuf'
  have hbase : g.base.block = some j := by rw [← hpj]; exact hblock
  cases hbuf : g.buf with
  | none =>
    rw [Grant.base, hbuf] at hbase
    cases hbase
  | some x =>
    obtain ⟨q, qbytes⟩ := x
    have hq : g.base = q := by rw [Grant.base, hbuf]; rfl
    obtain ⟨hqj, -⟩ := h.fresh _ g hg q qbytes hbuf
    rw [hq, hqj] at hbase
    obtain rfl := Option.some.inj hbase
    rw [hg] at hj
    cases hj
    rw [hbuf] at hbuf'
    cases hbuf'
    refine ⟨rfl, ?_⟩
    rw [range_laidRequest g n request (bufferLength params), hq] at hwithin
    rw [hq]
    exact hwithin

/-- Every request is in a block exactly if no block was refused and their size did not wrap. -/
theorem Recorded.inBlock_iff {gs : List Grant} (hrec : Recorded params gs tr) (h : Accepted params)
    (hgs : gs.length = params.mrCount) (hfilled : Filled params requests gs params.count requests') :
    (∀ n < params.count, InBlock tr (reqAt requests' n)) ↔
      (∀ x ∈ mallocsOf tr, x.2.isSome) ∧ countPerMr params * params.length < 2 ^ 64 := by
  have hpos := h.countPerMr_pos
  constructor
  · intro hin
    have hgroup : ∀ n < params.count, ∃ g, gs[n / countPerMr params]? = some g ∧ g.buf.isSome ∧
        (Range.cell ⟨g.base.addr, bufferLength params⟩ params.length (n % countPerMr params)).Within
          ⟨g.base.addr, bufferLength params⟩ := by
      intro n hn
      obtain ⟨g, hg, hr⟩ := hfilled.done n hn
      have hn := hin n hn
      rw [hr] at hn
      exact ⟨g, hg, hrec.of_inBlock hg hn⟩
    constructor
    · intro x hx
      rw [hrec.mallocs] at hx
      obtain ⟨g, hg, rfl⟩ := List.mem_map.1 hx
      obtain ⟨j, hj⟩ := List.getElem?_of_mem hg
      have hjlt : j < params.mrCount := by
        rw [← hgs]
        exact (List.getElem?_eq_some_iff.1 hj).1
      obtain ⟨g', hg', hbuf, -⟩ := hgroup _ (h.first_lt hjlt)
      rw [Nat.mul_div_cancel _ hpos, hj] at hg'
      cases hg'
      exact hbuf
    · -- the first block holds all its requests
      have hmr := h.checked.2.2.1
      have hcount : countPerMr params ≤ params.count := by
        rw [← h.countPerMr_mul]
        exact Nat.le_mul_of_pos_left _ hmr
      obtain ⟨g, hg, -⟩ := hgroup 0 h.checked.1
      rw [Nat.zero_div] at hg
      have hcells : ∀ i < countPerMr params,
        (Range.cell ⟨g.base.addr, bufferLength params⟩ params.length i).Within
          ⟨g.base.addr, bufferLength params⟩ := by
        intro i hi
        obtain ⟨g', hg', -, hw⟩ := hgroup i (by omega)
        rw [Nat.div_eq_of_lt hi, hg] at hg'
        cases hg'
        rwa [Nat.mod_eq_of_lt hi] at hw
      exact lt_of_le_of_lt (Range.le_of_cells hpos hcells) (sizeT_lt _)
  · rintro ⟨hgranted, hfit⟩ n hn
    obtain ⟨g, hg, hr⟩ := hfilled.done n hn
    obtain ⟨bytes, -, hblock⟩ := hrec.block hgranted hg
    rw [hr]
    refine ⟨bufferLength params, g.base, bytes, List.mem_of_getElem? hblock, rfl, ?_⟩
    rw [range_laidRequest g n _ (bufferLength params)]
    exact Range.cell_within (sizeT_of_lt hfit) (Nat.mod_lt n hpos)

/-- **Allocation failures.** They are reported exactly when there is nothing to report: every
allocation and registration succeeded, and the blocks are as long as they were meant to be. -/
theorem failureReported_iff (h : Accepted params) (hlen : requests.length = params.count)
    (hret : Reach allocating (allocateBuffer requests params) [] (.ret (rv, requests')) tr) :
    FailureReported params tr rv requests' ↔ AllGranted tr ∧
      countPerMr params * params.length < 2 ^ 64 := by
  obtain ⟨rfl, gs, hgs, hrec, hfilled⟩ := allocateBuffer_recorded h hlen hret
  have hin := hrec.inBlock_iff h hgs hfilled
  constructor
  · intro hreport
    obtain ⟨hmallocs, hfit⟩ := hin.1 fun n hn => (hreport rfl n hn).block
    refine ⟨allGranted_iff.2 ⟨hmallocs, fun x hx => ?_⟩, hfit⟩
    rw [hrec.registrations] at hx
    obtain ⟨g, hg, rfl⟩ := List.mem_map.1 hx
    obtain ⟨j, hj⟩ := List.getElem?_of_mem hg
    have hjlt : j < params.mrCount := by
      rw [← hgs]
      exact (List.getElem?_eq_some_iff.1 hj).1
    obtain ⟨g', hg', hmr, -⟩ := hfilled.first h hjlt
    obtain rfl := Option.some.inj (hj.symm.trans hg')
    exact hmr ▸ (hreport rfl _ (h.first_lt hjlt)).mr
  · rintro ⟨hgranted, hfit⟩ - n hn
    obtain ⟨g, hg, hr⟩ := hfilled.done n hn
    obtain ⟨p, mr, -, -, hmr⟩ := hrec.backed hgranted hg
    obtain ⟨bytes, hbuf, -⟩ := hrec.block (allGranted_iff.1 hgranted).1 hg
    obtain ⟨-, hp0⟩ := hrec.fresh _ g hg g.base bytes hbuf
    refine ⟨?_, hin.2 ⟨(allGranted_iff.1 hgranted).1, hfit⟩ n hn, ?_⟩
    · rw [hr]
      show g.base.addr + _ ≠ 0
      omega
    · rw [hr]
      show g.mr.isSome
      rw [hmr]
      rfl

theorem failureReported_iff_fourRequests : ∃ requests',
    FailureReported fourRequests fourCalls 0 requests' ↔ AllGranted fourCalls ∧
      countPerMr fourRequests * fourRequests.length < 2 ^ 64 := by
  obtain ⟨requests', hret⟩ := reach_fourCalls
  exact ⟨requests', failureReported_iff accepted_fourRequests rfl hret⟩

/-- The registration of the only buffer fails. -/
def refusedCalls : List (Event Verbs) :=
  [⟨.mallocRandom 1, some (⟨some 0, 4096⟩, [0])⟩, ⟨.regMr .msgs ⟨some 0, 4096⟩ 1, none⟩,
    ⟨.logError "rdma_reg_msgs", ()⟩]

/-- `allocate_buffer` returns 0 all the same. -/
theorem failureReported_counterexample : Accepted oneSend ∧ ∃ requests',
    Reach allocating (allocateBuffer [{}] oneSend) [] (.ret (0, requests')) refusedCalls ∧
      ¬ FailureReported oneSend refusedCalls 0 requests' := by
  have hret : Reach allocating (allocateBuffer [{}] oneSend) []
    (.ret (0, [{ verb := .Send, buf := ⟨some 0, 4096⟩, length := 1 }]))
      refusedCalls :=
    .call (some (⟨some 0, 4096⟩, [0])) ⟨rfl, by decide⟩ (.call none trivial (.call () trivial (.refl _ _)))
  refine ⟨accepted_oneSend, _, hret, fun hreport => ?_⟩
  have hmr := (hreport rfl 0 (by decide)).mr
  cases hmr

end

end RdmaOpera
