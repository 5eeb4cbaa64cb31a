import Mathlib.Data.List.Nodup
import RdmaOpera.Allocation

/-!
# `deallocate_buffer` after `allocate_buffer`

`deallocate_buffer` keeps no list of blocks. It finds them again in the requests: what it gives back
is what `allocate_buffer` was given, block by block, as long as nothing in between touches the `buf`
and `mr` of a request (`sameBuffers_runUses`).
-/

namespace RdmaOpera

open Lib Prog

/-- What is called on the request array between the two. -/
inductive Use where
  | getRemoteMrInfo (o : ByteOrder) (count : Nat)
  | sendAndWaitRequests (params : DccsParameters)
  | recvRequests (params : DccsParameters)

def Use.run (requests : List DccsRequest) : Use → VProg (List DccsRequest)
  | .getRemoteMrInfo o count => do
    let (_, requests) ← RdmaOpera.getRemoteMrInfo o requests count
    pure requests
  | .sendAndWaitRequests params => do
    let (_, requests) ← RdmaOpera.sendAndWaitRequests requests params
    pure requests
  | .recvRequests params => do
    let _ ← RdmaOpera.recvRequests requests params
    pure requests

def runUses : List Use → List DccsRequest → VProg (List DccsRequest)
  | [], requests => pure requests
  | use :: uses, requests => do
    let requests ← use.run requests
    runUses uses requests

/-! ## The buffers stay where they are -/

section uses
variable {σ : Type} {m : Monitor Verbs σ} (hspin : m.spins) {requests requests' : List DccsRequest} {s : σ}
  {tr : List (Event Verbs)}

include hspin in
theorem Use.same_run (use : Use) : Anyhow m (use.run requests) s (SameBuffers requests) := by
  cases use with
  | getRemoteMrInfo o count => exact Safe.bind (same_getRemoteMrInfo hspin o count) fun _ _ h => h
  | sendAndWaitRequests params =>
    exact Safe.bind (same_sendAndWaitRequests hspin params) fun _ _ h => h
  | recvRequests params => exact anyhow_bind hspin fun _ _ => SameBuffers.refl requests

include hspin in
theorem same_runUses (uses : List Use) :
    Anyhow m (runUses uses requests) s (SameBuffers requests) := by
  induction uses generalizing requests s with
  | nil => exact SameBuffers.refl requests
  | cons use uses ih =>
    refine Safe.bind (use.same_run hspin) fun requests' s' h => ?_
    exact Safe.mono ih fun _ _ h' => h.trans h'

/-- Nothing that happens in between changes `buf` or `mr`. -/
theorem sameBuffers_runUses {uses : List Use} (h : Returns (runUses uses requests) tr requests') :
    SameBuffers requests requests' := h.of_safe (same_runUses trivial uses)

end uses

/-! ## What is given back -/

/-- The base pointers and the regions that were handed out. -/
def blocksOf (tr : List (Event Verbs)) : List Ptr :=
  (mallocsOf tr).filterMap fun x => x.2.map Prod.fst

def regionsOf (tr : List (Event Verbs)) : List Mr := (registrationsOf tr).filterMap Registration.mr

/-- The calls that give a block back: its region first. -/
def releaseOf (x : Ptr × Mr) : List VOp := [.deregMr x.2, .free x.1]

/-- `tr'` gives back what `tr` was given, each region and each block once, and nothing else. -/
structure PairedRelease (params : DccsParameters) (tr tr' : List (Event Verbs)) : Prop where
  blocks : (blocksOf tr).length = params.mrCount
  distinct : (blocksOf tr).Nodup
  regions : (regionsOf tr).length = params.mrCount
  calls : tr'.map Event.op = ((blocksOf tr).zip (regionsOf tr)).flatMap releaseOf

/-- The pairs handed out to the groups. -/
theorem exists_handed {gs : List Grant} (h : ∀ g ∈ gs, g.buf.isSome ∧ g.mr.isSome) :
    ∃ xs : List (Ptr × Mr), gs.map (fun g => g.buf.map Prod.fst) = xs.map (fun x => some x.1) ∧
      gs.map Grant.mr = xs.map fun x => some x.2 := by
  induction gs with
  | nil => exact ⟨[], rfl, rfl⟩
  | cons g gs ih =>
    obtain ⟨hbuf, hmr⟩ := h g (by simp)
    obtain ⟨⟨p, bytes⟩, hbuf⟩ := Option.isSome_iff_exists.1 hbuf
    obtain ⟨mr, hmr⟩ := Option.isSome_iff_exists.1 hmr
    obtain ⟨xs, hblocks, hregions⟩ := ih fun g' hg' => h g' (by simp [hg'])
    exact ⟨(p, mr) :: xs, by simp [hbuf, hblocks], by simp [hmr, hregions]⟩

section
variable {params : DccsParameters} {requests requests₀ requests₁ : List DccsRequest}
  {tr₀ tr₁ : List (Event Verbs)} {rv : Int}

/-- What a group was granted, as the trace shows it. -/
theorem Recorded.handed {gs : List Grant} (h : Recorded params gs tr₀) (hg : AllGranted tr₀) :
    ∃ xs : List (Ptr × Mr), xs.length = gs.length ∧ blocksOf tr₀ = xs.map Prod.fst ∧
      regionsOf tr₀ = xs.map Prod.snd ∧
      (xs.map Prod.fst).Nodup ∧
      ∀ (j : Nat) (g : Grant), gs[j]? = some g → ∃ x, xs[j]? = some x ∧ g.base = x.1 ∧
      g.mr = some x.2 := by
  obtain ⟨hm, hr⟩ := allGranted_iff.1 hg
  rw [h.mallocs] at hm
  rw [h.registrations] at hr
  have hall : ∀ g ∈ gs, g.buf.isSome ∧ g.mr.isSome := fun g hg =>
    ⟨hm _ (List.mem_map.2 ⟨g, hg, rfl⟩), hr _ (List.mem_map.2 ⟨g, hg, rfl⟩)⟩
  obtain ⟨xs, hblocks, hregions⟩ := exists_handed hall
  have hlen : xs.length = gs.length := by
    have := congrArg List.length hregions
    simpa using this.symm
  have hat : ∀ (j : Nat) (g : Grant), gs[j]? = some g → ∃ x, xs[j]? = some x ∧
    g.buf.map Prod.fst = some x.1 ∧ g.mr = some x.2 := by
    intro j g hj
    have hb := congrArg (·[j]?) hblocks
    have hr := congrArg (·[j]?) hregions
    simp only [List.getElem?_map, hj, Option.map_some] at hb hr
    obtain ⟨x, hx, hbuf⟩ := Option.map_eq_some_iff.1 hb.symm
    rw [hx] at hr
    exact ⟨x, hx, hbuf.symm, Option.some.inj hr⟩
  refine ⟨xs, hlen, ?_, ?_, ?_, fun j g hj => ?_⟩
  · rw [blocksOf, h.mallocs, List.filterMap_map]
    have : gs.filterMap (fun g => g.buf.map Prod.fst) =
      (gs.map fun g => g.buf.map Prod.fst).filterMap id := by
      rw [List.filterMap_map]
      rfl
    rw [hblocks, List.filterMap_map] at this
    exact this.trans (congrFun List.filterMap_eq_map' xs)
  · rw [regionsOf, h.registrations, List.filterMap_map]
    have : gs.filterMap Grant.mr = (gs.map Grant.mr).filterMap id := by
      rw [List.filterMap_map]
      rfl
    rw [hregions, List.filterMap_map] at this
    exact this.trans (congrFun List.filterMap_eq_map' xs)
  · -- the `j`-th block is the one the `j`-th call returned
    refine List.Nodup.of_map Ptr.block ?_
    have hids : (xs.map Prod.fst).map Ptr.block = (List.range xs.length).map some := by
      refine List.ext_getElem? fun j => ?_
      by_cases hj : j < gs.length
      · obtain ⟨x, hx, hbuf, -⟩ := hat j gs[j] (List.getElem?_eq_getElem hj)
        obtain ⟨⟨p, bytes⟩, hp, hpx⟩ := Option.map_eq_some_iff.1 hbuf
        obtain ⟨hblock, -⟩ := h.fresh j gs[j] (List.getElem?_eq_getElem hj) p bytes hp
        have hpx : p = x.1 := hpx
        rw [hpx] at hblock
        rw [List.getElem?_map, List.getElem?_map, hx, List.getElem?_map,
          List.getElem?_range (by omega)]
        exact congrArg some hblock
      · rw [List.getElem?_eq_none (by simpa [hlen] using hj),
          List.getElem?_eq_none (by simpa [hlen] using hj)]
    rw [hids]
    exact List.nodup_range.map (Option.some_injective _)
  · obtain ⟨x, hx, hbuf, hmr⟩ := hat j g hj
    refine ⟨x, hx, ?_, hmr⟩
    rw [Grant.base, hbuf]
    rfl

/-- Some answer. -/
def VOp.plainAns : (op : VOp) → op.Ans
  | .cm _ => (0 : Int)
  | .stackVar _ => Ptr.null
  | .malloc _ => (none : Option Ptr)
  | .mallocRandom _ => (none : Option (Ptr × List UInt8))
  | .regMr .. => (none : Option Mr)
  | .postSend _ => (0 : Int)
  | .postRecv _ => (0 : Int)
  | .pollSend _ => Poll.failed
  | .pollRecv => Poll.failed
  | .load .. => ([] : List UInt8)
  | .getCycles => (0 : UInt64)
  | .waitUntil _ => (([] : List UInt64), (0 : UInt64))
  | .cmRelease _ | .leave _ | .free _ | .deregMr _ | .store .. | .logError _ | .report ..
  | .logDigest .. => ()

/-- **Allocation and release are paired**, whatever happens to the requests in between. -/
theorem deallocateBuffer_paired (h : Accepted params) (hlen : requests.length = params.count)
    (hret : Reach allocating (allocateBuffer requests params) [] (.ret (rv, requests₀)) tr₀)
    (hgranted : AllGranted tr₀) (uses : List Use)
    (huses : Returns (runUses uses requests₀) tr₁ requests₁) :
    (∃ tr, Returns (deallocateBuffer requests₁ params) tr ()) ∧
      ∀ tr, Returns (deallocateBuffer requests₁ params) tr () → PairedRelease params tr₀ tr := by
  obtain ⟨-, gs, hgs, hrec, hfilled⟩ := allocateBuffer_recorded h hlen hret
  obtain ⟨xs, hxs, hblocks, hregions, hdistinct, hhanded⟩ := hrec.handed hgranted
  have hsame := sameBuffers_runUses huses
  have hpos := h.countPerMr_pos
  -- the first request of a group still has what the group was granted
  have hfirst : ∀ g < params.mrCount, ∃ x, xs[g]? = some x ∧
      (reqAt requests₁ (g * countPerMr params)).mr = some x.2 ∧
        (reqAt requests₁ (g * countPerMr params)).buf = x.1 := by
    intro g hg
    obtain ⟨grant, hgrant, hmr, hbuf⟩ := hfilled.first h hg
    obtain ⟨x, hx, hbase, hmr'⟩ := hhanded g grant hgrant
    obtain ⟨-, -, hsame, hsame'⟩ := hsame.same (g * countPerMr params)
    exact ⟨x, hx, hsame.trans (hmr.trans hmr'), hsame'.trans (hbuf.trans hbase)⟩
  have hsafe : Safe (.trace (fun _ => True) False) (fun _ _ => True) (deallocateBuffer requests₁ params) []
      fun _ tr => tr.map Event.op = (xs.take params.mrCount).flatMap releaseOf := by
    refine safe_deallocateBuffer h (fun n (tr : List (Event Verbs)) => tr.map Event.op =
      (xs.take n).flatMap releaseOf) (by simp) fun g tr hg htr => ?_
    obtain ⟨x, hx, hmr, hbuf⟩ := hfirst g hg
    rw [deallocateGroup, hmr, hbuf]
    refine safe_bind.2 ⟨trivial, fun u _ => ⟨trivial, fun u' _ => ?_⟩⟩
    show List.map Event.op (tr ++ [⟨.deregMr x.2, u⟩] ++ [⟨.free x.1, u'⟩]) = _
    rw [List.map_append, List.map_append, htr, List.take_add_one, hx, List.flatMap_append,
      List.append_assoc]
    simp [releaseOf]
  constructor
  · obtain ⟨u, tr, hreach, -⟩ := hsafe.returns (fun hf => hf) fun _ op _ => ⟨op.plainAns, trivial⟩
    exact ⟨tr, hreach.trace_mono fun _ _ => trivial⟩
  · intro tr hrel
    have hcalls := hsafe.reach (hrel.trace_mono (fun _ h => h))
    refine ⟨?_, ?_, ?_, ?_⟩
    · rw [hblocks, List.length_map, hxs, hgs]
    · rw [hblocks]
      exact hdistinct
    · rw [hregions, List.length_map, hxs, hgs]
    · rw [hblocks, hregions, ← List.zip_of_prod rfl rfl, hcalls, List.take_of_length_le (by omega)]

end

theorem deallocateBuffer_paired_fourRequests : ∃ requests₁,
    (∃ tr, Returns (deallocateBuffer requests₁ fourRequests) tr ()) ∧
      ∀ tr, Returns (deallocateBuffer requests₁ fourRequests) tr () →
      PairedRelease fourRequests fourCalls tr := by
  obtain ⟨requests₀, hret⟩ := reach_fourCalls
  -- one message received into the first request
  have huses : Returns (runUses [.recvRequests oneSend] requests₀)
      [⟨.postRecv ⟨(reqAt requests₀ 0).buf.addr, (reqAt requests₀ 0).length,
        (reqAt requests₀ 0).mr⟩, (0 : Int)⟩,
        ⟨.pollRecv, Poll.got .good []⟩] requests₀ :=
    .call (0 : Int) trivial (.call (Poll.got .good []) trivial (.refl _ _))
  exact ⟨requests₀,
    deallocateBuffer_paired accepted_fourRequests rfl hret allGranted_fourCalls _ huses⟩

end RdmaOpera
