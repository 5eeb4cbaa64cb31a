import Mathlib.Algebra.BigOperators.Group.List.Basic
import RdmaOpera.MpiMatching
import RdmaOpera.Reports

/-!
# What `send_messages` and `recv_messages` post

Both walk over the blocks and the hosts with one body. The entries of `requests` are counted by an
`int`, the room for them by a `size_t` (`mpi_main.c:67-75`, `:120-128`); the length of a block is
narrowed to an `int` for the transfer, and is not for the offsets and for the bytes counted
(`:77-98`, `:130-148`).
-/

namespace RdmaOpera.MpiExec

open Lib Prog

/-- A call of `MPI_Isend` or `MPI_Irecv`. -/
structure Post where
  offset : Nat
  length : Int
  request : Int

def postOf : Event Mpi → Option Post
  | ⟨.isend offset length _ request, _⟩ | ⟨.irecv offset length _ request, _⟩ =>
    some ⟨offset, length, request⟩
  | _ => none

def testOf : Event Mpi → Option Int
  | ⟨.testall totalCount, _⟩ => some totalCount
  | _ => none

def postsOf (tr : List (Event Mpi)) : List Post := tr.filterMap postOf

def testsOf (tr : List (Event Mpi)) : List Int := tr.filterMap testOf

@[simp] theorem postsOf_append (tr tr' : List (Event Mpi)) :
    postsOf (tr ++ tr') = postsOf tr ++ postsOf tr' := List.filterMap_append

@[simp] theorem testsOf_append (tr tr' : List (Event Mpi)) :
    testsOf (tr ++ tr') = testsOf tr ++ testsOf tr' := List.filterMap_append

section
variable (params : DccsParameters) (target : Int) (size : Nat)

/-- The requests of a call. -/
def requestTotal : Nat := requestCount target size * params.count

/-- Post `k`, if each of the hosts gets block 0, then each gets block 1, and so on. -/
def postAt (k : Nat) : Post :=
  ⟨sizeT (k / requestCount target size * params.length), cInt params.length, cInt k⟩

end

/-! ## The posts of a run -/

section
variable {params : DccsParameters} {target : Int} {rank size bytes : Nat}

/-- What the nested loops have done in turn `n` of the outer and `h` of the inner one. -/
structure Posting (params : DccsParameters) (target : Int) (rank size bytes n h : Nat) (s : Posted)
    (tr : List (Event Mpi)) : Prop where
  sent : s.requestSent = cInt (sentBefore target rank size n h)
  posts : postsOf tr =
    (List.range (sentBefore target rank size n h)).map (postAt params target size)
  tests : testsOf tr = []
  bytes : s.bytes % 2 ^ 64 =
    (bytes + sentBefore target rank size n h * params.length) % 2 ^ 64

/-- A call for a host that is not skipped: it is for block `n`. -/
theorem Posting.post (hvalid : ¬ invalid target size) (hrank : rank < size) {n host : Nat}
    {s : Posted} {tr tr' : List (Event Mpi)} (h : Posting params target rank size bytes n host s tr)
    (hhost : host < size) (hs : ¬ skips target rank host)
    (hposts : postsOf tr' = postsOf tr ++
      [⟨sizeT (n * params.length), cInt params.length, s.requestSent⟩])
    (htests : testsOf tr' = testsOf tr) :
    Posting params target rank size bytes n (host + 1) ⟨intSucc s.requestSent,
      sizeT (s.bytes + params.length)⟩ tr' := by
  obtain ⟨hsent, hall, hnone, hbytes⟩ := h
  have hroom : hosts target rank host < requestCount target size := by
    have hle := hosts_mono target rank (show host + 1 ≤ size from hhost)
    rw [hosts_size hvalid hrank, hosts_succ, if_neg hs] at hle
    exact hle
  have hdiv : sentBefore target rank size n host / requestCount target size = n := by
    rw [sentBefore, hosts_size hvalid hrank, Nat.mul_comm, Nat.mul_add_div (by omega),
      Nat.div_eq_of_lt hroom, Nat.add_zero]
  refine ⟨?_, ?_, htests.trans hnone, ?_⟩
  · rw [sentBefore_post hs, hsent, intSucc_cInt]
  · rw [hposts, hall, sentBefore_post hs, List.range_succ, List.map_append, List.map_singleton,
      postAt, hdiv, hsent]
  · show sizeT (s.bytes + params.length) % 2 ^ 64 = _
    rw [sizeT, Nat.mod_mod, Nat.add_mod, hbytes, ← Nat.add_mod, sentBefore_post hs, Nat.succ_mul,
      Nat.add_assoc]

theorem safe_posts (hvalid : ¬ invalid target size) (hrank : rank < size)
    {m : Monitor Mpi (List (Event Mpi))} {post : Nat → Int → Nat → Int → MProg Unit}
    (hpost : ∀ offset length host request tr, Safe m (fun _ _ => True)
      (post offset length host request) tr fun _ tr' => postsOf tr' = postsOf tr ++
      [⟨offset, length, request⟩] ∧ testsOf tr' = testsOf tr) :
    Safe m (fun _ _ => True) (postMessages post params target rank size bytes) [] fun s tr =>
      Posting params target rank size bytes params.count 0 s tr := by
  have hzero : sentBefore target rank size 0 0 = 0 := by simp [sentBefore, hosts]
  refine safe_postMessages (Posting params target rank size bytes) ?_ ?_ ?_ ?_
  · refine ⟨?_, ?_, rfl, ?_⟩ <;> rw [hzero]
    · rfl
    · rfl
    · rw [Nat.zero_mul]
      rfl
  · intro n host s tr hs h
    refine ⟨?_, ?_, h.tests, ?_⟩ <;> rw [sentBefore_skip hs]
    · exact h.sent
    · exact h.posts
    · exact h.bytes
  · intro n host s tr _ hhost hs h
    exact (hpost _ _ _ _ tr).mono fun _ tr' h' => h.post hvalid hrank hhost hs h'.1 h'.2
  · intro n s tr h
    refine ⟨?_, ?_, h.tests, ?_⟩ <;> rw [← sentBefore_next]
    · exact h.sent
    · exact h.posts
    · exact h.bytes

/-- What a call has posted, tested and counted when it returns. -/
structure Made (params : DccsParameters) (target : Int) (size before after : Nat)
    (tr : List (Event Mpi)) : Prop where
  posts : postsOf tr = (List.range (requestTotal params target size)).map (postAt params target size)
  tests : ∀ totalCount ∈ testsOf tr, totalCount = cInt (requestTotal params target size)
  bytes : after % 2 ^ 64 = (before + requestTotal params target size * params.length) % 2 ^ 64

variable {spins : Prop}

theorem safe_sendMessages_made (hvalid : ¬ invalid target size) (hrank : rank < size) :
    Safe (.trace (fun _ => True) spins) (fun _ _ => True)
      (sendMessages size rank params target bytes) [] fun v tr =>
      Made params target size bytes v.2 tr := by
  unfold sendMessages
  rw [if_neg hvalid]
  refine (safe_posts hvalid hrank fun offset length host request tr => ?_).bind fun s tr h => ?_
  · refine ⟨trivial, fun _ _ => ⟨trivial, fun _ _ => ?_⟩⟩
    -- the request of a send is freed at once
    show postsOf (tr ++ [_] ++ [_]) = _ ∧ testsOf (tr ++ [_] ++ [_]) = _
    rw [postsOf_append, postsOf_append, testsOf_append, testsOf_append]
    exact ⟨List.append_nil _, (List.append_nil _).trans (List.append_nil _)⟩
  · obtain ⟨-, hposts, htests, hbytes⟩ := h
    rw [sentBefore_all hvalid hrank] at hposts hbytes
    refine ⟨hposts, fun totalCount hmem => ?_, hbytes⟩
    rw [htests] at hmem
    cases hmem

theorem safe_recvMessages_made (hvalid : ¬ invalid target size) (hrank : rank < size) :
    Safe (.trace (fun _ => True) spins) (fun _ _ => True)
      (recvMessages size rank params target bytes) [] fun v tr =>
      Made params target size bytes v.2 tr := by
  unfold recvMessages
  rw [if_neg hvalid]
  refine (safe_posts hvalid hrank fun offset length host request tr => ?_).bind fun s tr h => ?_
  · refine ⟨trivial, fun _ _ => ?_⟩
    show postsOf (tr ++ [_]) = _ ∧ testsOf (tr ++ [_]) = _
    rw [postsOf_append, testsOf_append]
    exact ⟨rfl, List.append_nil _⟩
  · obtain ⟨-, hposts, htests, hbytes⟩ := h
    rw [sentBefore_all hvalid hrank] at hposts hbytes
    refine ⟨trivial, fun u _ => ⟨?_, fun totalCount hmem => ?_, hbytes⟩⟩
    · show postsOf (tr ++ [_]) = _
      rw [postsOf_append, hposts]
      exact List.append_nil _
    · have hone : testsOf (tr ++ [⟨.testall (cInt (requestTotal params target size)), u⟩]) =
        [cInt (requestTotal params target size)] := by
        rw [testsOf_append, htests]
        rfl
      exact List.mem_singleton.1 (hone ▸ hmem)

theorem made_sendMessages (hvalid : ¬ invalid target size) (hrank : rank < size)
    {tr : List (Event Mpi)} {v : Int × Nat}
    (hret : Returns (sendMessages size rank params target bytes) tr v) :
    Made params target size bytes v.2 tr :=
  (safe_sendMessages_made hvalid hrank).reach hret

theorem made_recvMessages (hvalid : ¬ invalid target size) (hrank : rank < size)
    {tr : List (Event Mpi)} {v : Int × Nat}
    (hret : Returns (recvMessages size rank params target bytes) tr v) :
    Made params target size bytes v.2 tr :=
  (safe_recvMessages_made hvalid hrank).reach hret

/-! ## The array of requests -/

/-- The entries written, `requests + request_sent`. -/
def entriesOf (tr : List (Event Mpi)) : List Int := (postsOf tr).map Post.request

/-- Every entry of `requests` is written once, nothing else is, and they are all that `MPI_Testall`
is given. -/
structure RequestDiscipline (params : DccsParameters) (target : Int) (size : Nat)
    (tr : List (Event Mpi)) : Prop where
  within : ∀ i ∈ entriesOf tr, 0 ≤ i ∧ i < sizeT (requestTotal params target size)
  once : ∀ i : Nat, i < sizeT (requestTotal params target size) → (entriesOf tr).count (i : Int) = 1
  sent : cInt (postsOf tr).length = sizeT (requestTotal params target size)
  tested : ∀ totalCount ∈ testsOf tr, totalCount = sizeT (requestTotal params target size)

theorem Made.disciplined_iff {before after : Nat} {tr : List (Event Mpi)}
    (h : Made params target size before after tr) :
    RequestDiscipline params target size tr ↔ requestTotal params target size < 2 ^ 31 := by
  have hentries : entriesOf tr = (List.range (requestTotal params target size)).map cInt := by
    unfold entriesOf
    rw [h.posts, List.map_map]
    rfl
  have hlength : (postsOf tr).length = requestTotal params target size := by simp [h.posts]
  constructor
  · intro hd
    by_contra hlt
    have hwrap : cInt (2 ^ 31) = -(2 ^ 31) := by decide
    by_cases heq : requestTotal params target size = 2 ^ 31
    · -- the last increment overflows
      have hsent := hd.sent
      rw [hlength, heq, hwrap] at hsent
      omega
    · have hmem : cInt (2 ^ 31) ∈ entriesOf tr := by
        rw [hentries]
        exact List.mem_map.2 ⟨2 ^ 31, List.mem_range.2 (by omega), rfl⟩
      have hneg := (hd.within _ hmem).1
      rw [hwrap] at hneg
      omega
  · intro hlt
    have hsize : sizeT (requestTotal params target size) = requestTotal params target size :=
      sizeT_of_lt (by omega)
    have hcast : entriesOf tr = (List.range (requestTotal params target size)).map Int.ofNat := by
      rw [hentries]
      refine List.map_congr_left fun i hi => ?_
      have := List.mem_range.1 hi
      exact cInt_of_lt (by omega)
    refine ⟨fun i hi => ?_, fun i hi => ?_, ?_, fun totalCount hmem => ?_⟩
    · rw [hcast] at hi
      obtain ⟨k, hk, rfl⟩ := List.mem_map.1 hi
      rw [hsize]
      exact ⟨Int.natCast_nonneg k, Int.ofNat_lt.2 (List.mem_range.1 hk)⟩
    · rw [hsize] at hi
      rw [hcast]
      have hcount := List.count_map_of_injective (List.range (requestTotal params target size))
        Int.ofNat (fun _ _ => Int.ofNat.inj) i
      rw [show (i : Int) = Int.ofNat i from rfl, hcount]
      exact List.count_eq_one_of_mem List.nodup_range (List.mem_range.2 hi)
    · rw [hlength, hsize, cInt_of_lt hlt]
    · rw [h.tests _ hmem, hsize, cInt_of_lt hlt]

/-- **The array of requests** is used as it is meant to be exactly if an `int` can count its
entries. -/
theorem requestDiscipline_iff (hvalid : ¬ invalid target size) (hrank : rank < size) :
    (∀ tr v, Returns (sendMessages size rank params target bytes) tr v →
      (RequestDiscipline params target size tr ↔
      requestCount target size * params.count < 2 ^ 31)) ∧
    ∀ tr v, Returns (recvMessages size rank params target bytes) tr v →
      (RequestDiscipline params target size tr ↔
      requestCount target size * params.count < 2 ^ 31) :=
  ⟨fun _ _ hret => (made_sendMessages hvalid hrank hret).disciplined_iff,
    fun _ _ hret => (made_recvMessages hvalid hrank hret).disciplined_iff⟩

/-- Two blocks of three bytes. -/
def twoBlocksOfThree : DccsParameters := { oneSend with count := 2, length := 3 }

/-- Rank 0 receives them from each of two others. -/
theorem requestDiscipline_iff_threeRanks :
    RequestDiscipline twoBlocksOfThree hostNoself 3 [⟨.irecv 0 3 1 0, ()⟩, ⟨.irecv 0 3 2 1, ()⟩,
      ⟨.irecv 3 3 1 2, ()⟩, ⟨.irecv 3 3 2 3, ()⟩, ⟨.testall 4, ()⟩] := by
  have hret : Returns (recvMessages 3 0 twoBlocksOfThree hostNoself 0)
      [⟨.irecv 0 3 1 0, ()⟩, ⟨.irecv 0 3 2 1, ()⟩, ⟨.irecv 3 3 1 2, ()⟩, ⟨.irecv 3 3 2 3, ()⟩,
        ⟨.testall 4, ()⟩] (0, 12) :=
    .call () trivial (.call () trivial (.call () trivial (.call () trivial
      (.call () trivial (.refl _ _)))))
  exact ((requestDiscipline_iff (by decide) (by decide)).2 _ _ hret).2 (by decide)

/-- As many requests that `request_sent` ends below zero, and `MPI_Testall` is given that number. -/
theorem requestDiscipline_counterexample : ∃ tr v, Returns (recvMessages 2 1 { oneSend with count :=
  2 ^ 31 } 0 0) tr v ∧
    ¬ RequestDiscipline { oneSend with count := 2 ^ 31 } 0 2 tr ∧ ∀ totalCount ∈ testsOf tr,
      totalCount = -(2 ^ 31) := by
  have hsafe : Safe (.trace (fun _ => True) False) (fun _ _ => True)
    (recvMessages 2 1 { oneSend with count := 2 ^ 31 } 0 0) [] fun v tr =>
      Made { oneSend with count := 2 ^ 31 } 0 2 0 v.2 tr :=
        safe_recvMessages_made (by decide) (by decide)
  obtain ⟨v, tr, hreach, hmade⟩ := hsafe.returns id fun _ op _ => ⟨(exists_answer op).some, trivial⟩
  refine ⟨tr, v, hreach.trace_mono fun _ h => h,
    fun hd => absurd (hmade.disciplined_iff.1 hd) (by decide), fun totalCount hmem => ?_⟩
  rw [hmade.tests _ hmem]
  decide

/-! ## The bytes -/

/-- The counter is raised by what was passed on, and post `k` is for all of block `k /
requestCount`. -/
structure ByteAccounting (params : DccsParameters) (target : Int) (size before after : Nat)
    (tr : List (Event Mpi)) : Prop where
  sum : (sizeSub after before : Int) = ((postsOf tr).map Post.length).sum
  block : ∀ (k : Nat) (post : Post), (postsOf tr)[k]? = some post →
    post.offset = k / requestCount target size * params.length ∧ post.length = params.length

theorem Made.raise {before after : Nat} {tr : List (Event Mpi)}
    (h : Made params target size before after tr) (hbefore : before < 2 ^ 64) :
    sizeSub after before = requestTotal params target size * params.length % 2 ^ 64 := by
  have hbytes := h.bytes
  unfold sizeSub sizeT
  omega

theorem Made.sum {before after : Nat} {tr : List (Event Mpi)}
    (h : Made params target size before after tr) :
    ((postsOf tr).map Post.length).sum = requestTotal params target size * cInt params.length := by
  have hsame : (postsOf tr).map Post.length = List.replicate (requestTotal params target size)
    (cInt params.length) := by
    rw [h.posts, List.map_map]
    refine List.eq_replicate_iff.2 ⟨by simp, fun b hb => ?_⟩
    obtain ⟨k, -, rfl⟩ := List.mem_map.1 hb
    rfl
  rw [hsame, List.sum_replicate, nsmul_eq_mul]

theorem Made.accounted_iff {before after : Nat} {tr : List (Event Mpi)}
    (h : Made params target size before after tr) (hbefore : before < 2 ^ 64) :
    ByteAccounting params target size before after tr ↔
      requestTotal params target size = 0 ∨
        params.length < 2 ^ 31 ∧ requestTotal params target size * params.length < 2 ^ 64 := by
  have hpost : ∀ k < requestTotal params target size,
    (postsOf tr)[k]? = some (postAt params target size k) := by
    intro k hk
    rw [h.posts, List.getElem?_map, List.getElem?_range hk]
    rfl
  constructor
  · intro ha
    by_cases hzero : requestTotal params target size = 0
    · exact .inl hzero
    · right
      have hlength : cInt params.length = params.length := (ha.block 0 _ (hpost 0 (by omega))).2
      refine ⟨by have := cInt_lt params.length; omega, ?_⟩
      have hsum := ha.sum
      rw [h.raise hbefore, h.sum, hlength] at hsum
      have hsum : requestTotal params target size * params.length % 2 ^ 64 =
        requestTotal params target size * params.length := by
        exact_mod_cast hsum
      omega
  · intro hcond
    have hcast : requestTotal params target size ≠ 0 → cInt params.length = params.length :=
      fun hne => cInt_of_lt (hcond.resolve_left hne).1
    refine ⟨?_, fun k post hk => ?_⟩
    · rw [h.raise hbefore, h.sum]
      by_cases hzero : requestTotal params target size = 0
      · simp [hzero]
      · rw [hcast hzero, Nat.mod_eq_of_lt (hcond.resolve_left hzero).2]
        exact Int.natCast_mul _ _
    · have hlt : k < requestTotal params target size := by
        have := (List.getElem?_eq_some_iff.1 hk).1
        simpa [h.posts] using this
      rw [hpost k hlt] at hk
      cases hk
      obtain ⟨-, hfit⟩ := hcond.resolve_left (by omega)
      refine ⟨sizeT_of_lt (lt_of_le_of_lt ?_ hfit), hcast (by omega)⟩
      exact Nat.mul_le_mul_right _ (le_trans (Nat.div_le_self _ _) hlt.le)

/-- **The bytes counted** are the bytes transferred exactly if nothing is, or the length of a block
survives the narrowing and their number does not wrap. -/
theorem byteAccounting_iff (hvalid : ¬ invalid target size) (hrank : rank < size)
    (hbytes : bytes < 2 ^ 64) :
    (∀ tr v, Returns (sendMessages size rank params target bytes) tr v →
      (ByteAccounting params target size bytes v.2 tr ↔
      requestCount target size * params.count = 0 ∨
        params.length < 2 ^ 31 ∧
        requestCount target size * params.count * params.length < 2 ^ 64)) ∧
    ∀ tr v, Returns (recvMessages size rank params target bytes) tr v →
      (ByteAccounting params target size bytes v.2 tr ↔
      requestCount target size * params.count = 0 ∨
        params.length < 2 ^ 31 ∧
        requestCount target size * params.count * params.length < 2 ^ 64) :=
  ⟨fun _ _ hret => (made_sendMessages hvalid hrank hret).accounted_iff hbytes,
    fun _ _ hret => (made_recvMessages hvalid hrank hret).accounted_iff hbytes⟩

/-- Twice three bytes to each of two others, on top of ten. -/
theorem byteAccounting_iff_threeRanks :
    ByteAccounting twoBlocksOfThree hostNoself 3 10 22
      [⟨.isend 0 3 1 0, ()⟩, ⟨.requestFree 0, ()⟩, ⟨.isend 0 3 2 1, ()⟩, ⟨.requestFree 1, ()⟩,
        ⟨.isend 3 3 1 2, ()⟩, ⟨.requestFree 2, ()⟩, ⟨.isend 3 3 2 3, ()⟩, ⟨.requestFree 3, ()⟩] := by
  have hret : Returns (sendMessages 3 0 twoBlocksOfThree hostNoself 10)
      [⟨.isend 0 3 1 0, ()⟩, ⟨.requestFree 0, ()⟩, ⟨.isend 0 3 2 1, ()⟩, ⟨.requestFree 1, ()⟩,
        ⟨.isend 3 3 1 2, ()⟩, ⟨.requestFree 2, ()⟩, ⟨.isend 3 3 2 3, ()⟩, ⟨.requestFree 3, ()⟩]
      (0, 22) :=
    .call () trivial (.call () trivial (.call () trivial (.call () trivial
      (.call () trivial (.call () trivial (.call () trivial (.call () trivial (.refl _ _))))))))
  exact ((byteAccounting_iff (by decide) (by decide) (by decide)).1 _ _ hret).2
    (.inr ⟨by decide, by decide⟩)

/-- One byte is sent of a block of `2 ^ 32 + 1`, all of which are counted. -/
theorem byteAccounting_counterexample :
    Returns (sendMessages 2 1 { oneSend with length := 2 ^ 32 + 1 } 0 0) [⟨.isend 0 1 0 0, ()⟩,
      ⟨.requestFree 0, ()⟩] (0, 2 ^ 32 + 1) ∧
      ¬ ByteAccounting { oneSend with length := 2 ^ 32 + 1 } 0 2 0
        (2 ^ 32 + 1) [⟨.isend 0 1 0 0, ()⟩, ⟨.requestFree 0, ()⟩] := by
  refine ⟨.call () trivial (.call () trivial (.refl _ _)), fun h => ?_⟩
  have hlength := (h.block 0 ⟨0, 1, 0⟩ rfl).2
  exact absurd hlength (by decide)

end

end RdmaOpera.MpiExec
