import RdmaOpera.MpiBroadcast

/-!
# What the buffers hold in the direction 1-N

`Content` is the joint invariant: whatever has been read out of rank 0's buffer is still there,
whatever has arrived at another rank is what stands at the same place of rank 0's, and a rank that
has loaded its buffer has received all of it. So all digests are the same (`content_agrees`).
-/

namespace RdmaOpera.MpiExec

open Lib Prog

/-! ## Blocks and memory -/

theorem bytesAt_congr {mem mem' : Nat → UInt8} {r : Range} (h : ∀ a, r.Contains a → mem a = mem' a) :
    bytesAt mem r = bytesAt mem' r := by
  refine List.map_congr_left fun i hi => h _ ⟨Nat.le_add_right _ _, ?_⟩
  have := List.mem_range.1 hi
  omega

theorem writeAt_bytesAt (mem mem' : Nat → UInt8) (r : Range) (a : Nat) :
    writeAt mem r.base (bytesAt mem' r) a = if r.Contains a then mem' a else mem a := by
  unfold writeAt
  by_cases hlo : r.base ≤ a
  · rw [if_pos hlo]
    by_cases hhi : a < r.base + r.len
    · have hget : (bytesAt mem' r)[a - r.base]? = some (mem' a) := by
        have hlt : a - r.base < r.len := by omega
        have hadd : r.base + (a - r.base) = a := by omega
        simp [bytesAt, hlt, hadd]
      rw [if_pos ⟨hlo, hhi⟩, List.getD_eq_getElem?_getD, hget, Option.getD_some]
    · have hget : (bytesAt mem' r)[a - r.base]? = none := by
        rw [List.getElem?_eq_none_iff, length_bytesAt]
        omega
      rw [if_neg fun h => hhi h.2, List.getD_eq_getElem?_getD, hget, Option.getD_none]
  · rw [if_neg hlo, if_neg fun h => hlo h.1]

variable {params : DccsParameters} {size : Nat}

/-- The whole buffer, as `verify_checksum` hashes it. -/
def whole (params : DccsParameters) : Range := ⟨0, sizeT (params.length * params.count)⟩

/-- Block `n`, in full. -/
def cellOf (params : DccsParameters) (n : Nat) : Range := ⟨sizeT (n * params.length), params.length⟩

theorem block_of_exact (hexact : Exact params) (n : Nat) :
    block params n = .block (cellOf params n) := by
  rw [block, hexact, Int.toNat_natCast, cellOf]

/-- The blocks cover the buffer. -/
theorem exists_cellOf {a : Nat} (ha : (whole params).Contains a) :
    ∃ n < params.count, (cellOf params n).Contains a := by
  have hlt : a < sizeT (params.length * params.count) := by simpa [whole] using ha.2
  have hsize : sizeT (params.length * params.count) ≤ params.length * params.count := Nat.mod_le _ _
  have h64 : sizeT (params.length * params.count) < 2 ^ 64 := Nat.mod_lt _ (by decide)
  have hpos : 0 < params.length := by
    rcases Nat.eq_zero_or_pos params.length with h0 | hpos
    · rw [h0, Nat.zero_mul] at hsize hlt
      omega
    · exact hpos
  have hdiv := Nat.div_add_mod a params.length
  have hmod := Nat.mod_lt a hpos
  have hle : a / params.length * params.length ≤ a := Nat.div_mul_le_self a params.length
  have hwrap : sizeT (a / params.length * params.length) = a / params.length * params.length :=
    Nat.mod_eq_of_lt (by omega)
  rw [Nat.mul_comm] at hdiv
  refine ⟨a / params.length, Nat.div_lt_of_lt_mul (by omega), ?_, ?_⟩
  · show sizeT _ ≤ a
    rw [hwrap]
    exact hle
  · show a < sizeT _ + params.length
    rw [hwrap]
    omega

/-- In the first round every block is sent. -/
theorem rounds_getElem? {repeats n : Nat} (hn : n < params.count) (hr : 0 < repeats) :
    (rounds params repeats)[n]? = some (block params n) := by
  obtain ⟨k, rfl⟩ : ∃ k, repeats = 1 + k := ⟨repeats - 1, by omega⟩
  rw [rounds_add, rounds_one, List.getElem?_append_left (by simpa using hn)]
  simp [blocks, hn]

/-! ## The plan in this direction -/

theorem planned_out (hdir : params.direction = .dirOut) (s d : Nat) : planned params size s d =
    (if s = 0 ∧ d ≠ 0 ∧ 0 < size ∧ d < size then rounds params params.repeat_ else []) ++
      if d = 0 ∧ 1 ≤ s ∧ s < size then [.array shaDigestLength] else [] := by
  have hiff : talks params.direction s d ∧ s < size ∧ d < size ↔ s = 0 ∧ d ≠ 0 ∧ 0 < size ∧ d < size := by
    rw [hdir, talks]
    constructor
    · rintro ⟨⟨rfl, hd⟩, hs, hsize⟩
      exact ⟨rfl, hd, hs, hsize⟩
    · rintro ⟨rfl, hd, hs, hsize⟩
      exact ⟨⟨rfl, hd⟩, hs, hsize⟩
  simp only [planned, hiff]

/-- A block goes from rank 0 to another one. -/
theorem planned_block (hdir : params.direction = .dirOut) {s d : Nat} {r : Range}
    (h : Place.block r ∈ planned params size s d) : s = 0 ∧ d ≠ 0 := by
  rw [planned_out hdir] at h
  rcases List.mem_append.1 h with h | h
  · split at h
    · rename_i hsd
      exact ⟨hsd.1, hsd.2.1⟩
    · cases h
  · split at h
    · cases List.mem_singleton.1 h
    · cases h

/-! ## The joint invariant -/

section sha1
variable (sha1sum : List UInt8 → Digest)

structure Content (allocates : Prop) (params : DccsParameters) (size : Nat) (mem₀ : Nat → UInt8)
    (w : World) : Prop where
  aligned : Aligned params size w
  barriers : ∀ r, (w.loc r).barriers ≤ params.repeat_
  ahead : ∀ d, d ≠ 0 → d < size → ((w.loc 0).barriers - 1) * params.count ≤
    ((w.loc 0).sends d).length
  /-- What has been read out of a block still stands there. -/
  read : ∀ s d k bytes, w.read (s, d, k) = some bytes →
    ∃ place, ((w.loc s).sends d)[k]? = some place ∧
    bytes.length = place.length ∧ ∀ r, place = .block r → bytes = bytesAt (w.mem s) r
  arrays : ∀ s d k n, ((w.loc s).sends d)[k]? = some (.array n) → (w.loc s).loaded.isSome ∧
    ∃ bytes, w.read (s, d, k) = some bytes ∧
    (Exact params → bytes = (sha1sum (bytesAt (w.mem 0) (whole params))).toList)
  got : ∀ s d k bytes, w.got (s, d, k) = some bytes → k < (w.pairs (s, d)).length ∧
    w.read (s, d, k) = some bytes
  /-- What has arrived is what rank 0 has at the same place. -/
  written : ∀ s d k r, (w.got (s, d, k)).isSome → ((w.loc d).recvs s)[k]? = some (.block r) →
    ∀ a, r.Contains a → w.mem d a = w.mem 0 a
  complete : ∀ s d k, (s, k) ∈ (w.loc d).complete → (w.got (s, d, k)).isSome
  loaded : ∀ r content, (w.loc r).loaded = some content → Through params size r (w.loc r) ∧
    (Exact params → content = bytesAt (w.mem 0) (whole params))
  original : ¬ allocates → w.mem 0 = mem₀ ∧ ∀ r, w.freed r = false

variable {allocates : Prop} {mem₀ : Nat → UInt8} {w w' : World} {hint : Hint} {r : Nat} {op : MOp}

theorem Content.start (mem : Nat → Nat → UInt8) :
    Content sha1sum allocates params size (mem 0) { mem } where
  aligned := .start params size mem
  barriers _ := Nat.zero_le _
  ahead _ _ _ := by simp
  read _ _ _ _ h := nomatch h
  arrays _ _ _ _ h := nomatch h
  got _ _ _ _ h := nomatch h
  written _ _ _ _ h := nomatch h
  complete _ _ _ h := nomatch h
  loaded _ _ h := nomatch h
  original _ := ⟨rfl, fun _ => rfl⟩

namespace Content

variable {sha1sum}

/-- Places in step: the `k`-th receive of a channel is the `k`-th message. -/
theorem place_eq (h : Content sha1sum allocates params size mem₀ w) {s d k : Nat}
    {bytes : List UInt8} (hgot : w.got (s, d, k) = some bytes) :
    ∃ place, ((w.loc s).sends d)[k]? = some place ∧ ((w.loc d).recvs s)[k]? = some place ∧
      place ∈ planned params size s d := by
  obtain ⟨hlt, -⟩ := h.got s d k bytes hgot
  obtain ⟨-, place, hs, hd⟩ := h.aligned.inStep s d k _ (List.getElem?_eq_getElem hlt)
  refine ⟨place, hs, hd, ?_⟩
  by_cases hsize : s < size
  · exact ((h.aligned.onPlan s hsize).sends d).subset (List.mem_of_getElem? hs)
  · rw [h.aligned.idle s (by omega)] at hs
    cases hs

/-- **A call that only the rank itself notices.** -/
theorem quiet (h : Content sha1sum allocates params size mem₀ w) (hr : r < size) {a : MOp.Ans op}
    (heffect : w.effect hint r op = w) (hplan : OnPlan params size r ((w.loc r).upd op a))
    (harrays : ∀ d (k n : Nat), (((w.loc r).upd op a).sends d)[k]? = some (.array n) →
      ((w.loc r).sends d)[k]? = some (.array n))
    (hbarriers : ((w.loc r).upd op a).barriers ≤ params.repeat_)
    (hahead : r = 0 → ∀ d, d ≠ 0 → d < size → (((w.loc r).upd op a).barriers - 1) * params.count ≤
      (((w.loc r).upd op a).sends d).length)
    (hcomplete : ∀ s k, (s, k) ∈ ((w.loc r).upd op a).complete → (w.got (s, r, k)).isSome)
    (hkeep : (w.loc r).loaded.isSome → ((w.loc r).upd op a).loaded.isSome)
    (hloaded : ∀ content, ((w.loc r).upd op a).loaded = some content →
      Through params size r ((w.loc r).upd op a) ∧
      (Exact params → content = bytesAt (w.mem 0) (whole params))) :
    Content sha1sum allocates params size mem₀ (w.called hint r op a) := by
  have hcalled : w.called hint r op a =
    { w with loc := Function.update w.loc r ((w.loc r).upd op a) } := by
    rw [World.called, heffect]
  have hloc := World.called_loc w hint r op a
  have haligned : Aligned params size (w.called hint r op a) := h.aligned.called hr hplan
  -- the lists grow
  have hsends : ∀ s d, (w.loc s).sends d <+: ((w.called hint r op a).loc s).sends d := by
    intro s d
    rw [hloc]
    split
    · rename_i hs
      rw [hs]
      exact sends_upd _ op a d
    · exact List.prefix_rfl
  have hrecvs : ∀ s d, (w.loc d).recvs s <+: ((w.called hint r op a).loc d).recvs s := by
    intro s d
    rw [hloc]
    split
    · rename_i hd
      rw [hd]
      exact recvs_upd _ op a s
    · exact List.prefix_rfl
  rw [hcalled] at hloc haligned hsends hrecvs ⊢
  refine ⟨haligned, fun q => ?_, fun d hd hsize => ?_, fun s d k bytes hread => ?_,
    fun s d k n hk => ?_, h.got,
    fun s d k b hgot hk => ?_, fun s d k hk => ?_, fun q content hq => ?_, h.original⟩
  · rw [hloc]
    split
    · exact hbarriers
    · exact h.barriers q
  · rw [hloc]
    split
    · rename_i h0
      exact hahead h0.symm d hd hsize
    · exact h.ahead d hd hsize
  · obtain ⟨place, hplace, hrest⟩ := h.read s d k bytes hread
    exact ⟨place, getElem?_mono (hsends s d) hplace, hrest⟩
  · rw [hloc] at hk ⊢
    split at hk
    · rename_i hs
      obtain ⟨hl, hrest⟩ := h.arrays r d k n (harrays d k n hk)
      rw [if_pos hs, hs]
      exact ⟨hkeep hl, hrest⟩
    · rename_i hs
      rw [if_neg hs]
      exact h.arrays s d k n hk
  · obtain ⟨bytes, hbytes⟩ := Option.isSome_iff_exists.1 hgot
    obtain ⟨place, -, hplace, -⟩ := h.place_eq hbytes
    refine h.written s d k b hgot ?_
    have hnew := getElem?_mono (hrecvs s d) hplace
    exact hplace.trans (hnew.symm.trans hk)
  · rw [hloc] at hk
    split at hk
    · rename_i hd
      rw [hd]
      exact hcomplete s k hk
    · exact h.complete s d k hk
  · rw [hloc] at hq ⊢
    split at hq
    · rename_i heq
      rw [if_pos heq, heq]
      exact hloaded content hq
    · rename_i hne
      rw [if_neg hne]
      exact h.loaded q content hq

/-- A rank that is through has all of rank 0's blocks. -/
theorem received (h : Content sha1sum allocates params size mem₀ w)
    (hdir : params.direction = .dirOut) (hexact : Exact params) (hrepeat : 0 < params.repeat_)
    (hr : r < size) (hthrough : Through params size r (w.loc r)) {n : Nat} (hn : n < params.count)
    {a : Nat} (ha : (cellOf params n).Contains a) : w.mem r a = w.mem 0 a := by
  by_cases h0 : r = 0
  · rw [h0]
  · have hlt : n < params.repeat_ * params.count :=
      Nat.lt_of_lt_of_le hn (Nat.le_mul_of_pos_left _ hrepeat)
    have hgot := h.complete 0 r n (hthrough.complete h0 n hlt)
    obtain ⟨bytes, hbytes⟩ := Option.isSome_iff_exists.1 hgot
    obtain ⟨place, -, hplace, -⟩ := h.place_eq hbytes
    have hplan := getElem?_mono ((h.aligned.onPlan r hr).recvs 0) hplace
    have hsize : 0 < size := by omega
    rw [planned_out hdir, if_pos ⟨rfl, h0, hsize, hr⟩,
      List.getElem?_append_left (by rwa [length_rounds]), rounds_getElem? hn hrepeat,
      block_of_exact hexact] at hplan
    rw [← Option.some.inj hplan] at hplace
    exact h.written 0 r n _ hgot hplace a ha

/-- While rank 0 has not begun, nobody is through. -/
theorem not_begun (h : Content sha1sum allocates params size mem₀ w)
    (hpos : 0 < params.repeat_ * params.count) (h0 : w.loc 0 = {}) {content : List UInt8}
    (hloaded : (w.loc r).loaded = some content) : False := by
  by_cases hr : r = 0
  · rw [hr, h0] at hloaded
    cases hloaded
  · have hgot := h.complete 0 r 0 ((h.loaded r content hloaded).1.complete hr 0 hpos)
    obtain ⟨bytes, hbytes⟩ := Option.isSome_iff_exists.1 hgot
    obtain ⟨place, hplace, -⟩ := h.place_eq hbytes
    rw [h0] at hplace
    cases hplace

/-- A rank that has posted nothing may do with its buffer what it likes. -/
theorem fresh (h : Content sha1sum allocates params size mem₀ w) (hdir : params.direction = .dirOut)
    (hpos : 0 < params.repeat_ * params.count) (hallocates : allocates) (hr : w.loc r = {})
    (bytes : Nat → UInt8) (freed : Nat → Bool) :
    Content sha1sum allocates params size mem₀
      { w with mem := Function.update w.mem r bytes, freed := freed } := by
  have hothers : ∀ q, q ≠ r → Function.update w.mem r bytes q = w.mem q :=
    fun q hq => Function.update_of_ne hq _ _
  -- if rank 0 is the one, nothing depends on its buffer yet
  have hzero : ∀ {q content}, (w.loc q).loaded = some content →
    Function.update w.mem r bytes 0 = w.mem 0 := by
    intro q content hq
    refine hothers 0 fun h0 => ?_
    exact h.not_begun hpos (h0 ▸ hr) hq
  refine ⟨⟨h.aligned.onPlan, h.aligned.idle, h.aligned.pairs⟩, h.barriers, h.ahead,
    fun s d k b hread => ?_, fun s d k n hk => ?_, h.got,
    fun s d k b hgot hk a ha => ?_, h.complete, fun q content hq => ?_, fun hno =>
      absurd hallocates hno⟩
  · obtain ⟨place, hplace, hlen, hblock⟩ := h.read s d k b hread
    have hs : s ≠ r := by
      rintro rfl
      rw [hr] at hplace
      cases hplace
    refine ⟨place, hplace, hlen, fun b hb => ?_⟩
    show _ = bytesAt (Function.update w.mem r bytes s) b
    rw [hothers s hs]
    exact hblock b hb
  · obtain ⟨hl, b, hb, hdigest⟩ := h.arrays s d k n hk
    obtain ⟨content, hcontent⟩ := Option.isSome_iff_exists.1 hl
    refine ⟨hl, b, hb, fun hexact => ?_⟩
    show _ = (sha1sum (bytesAt (Function.update w.mem r bytes 0) _)).toList
    rw [hzero hcontent]
    exact hdigest hexact
  · have hd : d ≠ r := by
      rintro rfl
      rw [hr] at hk
      cases hk
    obtain ⟨b', hb'⟩ := Option.isSome_iff_exists.1 hgot
    obtain ⟨place, hplace, hplace', hmem⟩ := h.place_eq hb'
    obtain rfl := Option.some.inj (hplace'.symm.trans hk)
    obtain ⟨rfl, -⟩ := planned_block hdir hmem
    have h0 : (0 : Nat) ≠ r := by
      rintro rfl
      rw [hr] at hplace
      cases hplace
    show Function.update w.mem r bytes d a = Function.update w.mem r bytes 0 a
    rw [hothers d hd, hothers 0 h0]
    exact h.written 0 d k b hgot hk a ha
  · obtain ⟨hthrough, hcontent⟩ := h.loaded q content hq
    refine ⟨hthrough, fun hexact => ?_⟩
    show _ = bytesAt (Function.update w.mem r bytes 0) _
    rw [hzero hq]
    exact hcontent hexact

/-- A rank that is through sends its digest. -/
theorem send (h : Content sha1sum allocates params size mem₀ w) (hr : r < size) (h0 : r ≠ 0)
    (hthrough : Through params size r (w.loc r)) {content : List UInt8}
    (hcontent : (w.loc r).loaded = some content)
    (hplan : OnPlan params size r ((w.loc r).upd (.send (sha1sum content).toList 0) ())) :
    Content sha1sum allocates params size mem₀ (w.called hint r (.send (sha1sum content).toList 0) ()) := by
  have haligned : Aligned params size (w.called hint r (.send (sha1sum content).toList 0) ()) :=
    h.aligned.called hr hplan
  have hsends : ∀ s d, ((w.called hint r (.send (sha1sum content).toList 0) ()).loc s).sends d =
      if s = r ∧ d = 0 then (w.loc s).sends d ++
        [.array (sha1sum content).toList.length] else (w.loc s).sends d := by
    intro s d
    rw [World.called_loc]
    by_cases hs : s = r
    · rw [if_pos hs, hs]
      show post (w.loc r).sends 0 _ d = _
      rw [post_apply]
      simp
    · rw [if_neg hs, if_neg fun h => hs h.1]
  -- nothing has been read out of the new message before
  have hself : (w.called hint r (.send (sha1sum content).toList 0) ()).read (r, 0,
    ((w.loc r).sends 0).length) =
      some (sha1sum content).toList := Function.update_self _ _ _
  have hother : ∀ {x : Nat × Nat × Nat}, x ≠ (r, 0, ((w.loc r).sends 0).length) →
      (w.called hint r (.send (sha1sum content).toList 0) ()).read x = w.read x :=
        fun hx => Function.update_of_ne hx _ _
  have hread : ∀ {s d k : Nat}, k < ((w.loc s).sends d).length →
      (w.called hint r (.send (sha1sum content).toList 0) ()).read (s, d, k) =
        w.read (s, d, k) := by
    intro s d k hk
    refine hother ?_
    rintro heq
    cases heq
    exact absurd hk (Nat.lt_irrefl _)
  have hlt : ∀ {s d k : Nat} {bytes : List UInt8}, w.read (s, d, k) = some bytes →
    k < ((w.loc s).sends d).length := by
    intro s d k bytes hb
    obtain ⟨place, hplace, -⟩ := h.read s d k bytes hb
    exact (List.getElem?_eq_some_iff.1 hplace).1
  have hrest : ∀ q, ((w.called hint r (.send (sha1sum content).toList 0) ()).loc q).recvs =
    (w.loc q).recvs ∧
      ((w.called hint r (.send (sha1sum content).toList 0) ()).loc q).barriers =
        (w.loc q).barriers ∧
      ((w.called hint r (.send (sha1sum content).toList 0) ()).loc q).complete =
        (w.loc q).complete ∧
      ((w.called hint r (.send (sha1sum content).toList 0) ()).loc q).loaded =
        (w.loc q).loaded := by
    intro q
    rw [World.called_loc]
    split
    · rename_i hq
      rw [hq]
      exact ⟨rfl, rfl, rfl, rfl⟩
    · exact ⟨rfl, rfl, rfl, rfl⟩
  refine ⟨haligned, fun q => ?_, fun d hd hsize => ?_, fun s d k bytes hk => ?_,
    fun s d k n hk => ?_, fun s d k bytes hk => ?_,
    fun s d k b hgot hk => ?_, fun s d k hk => ?_, fun q content' hq => ?_, h.original⟩
  · rw [(hrest q).2.1]
    exact h.barriers q
  · rw [(hrest 0).2.1, hsends, if_neg fun hs => hd hs.2]
    exact h.ahead d hd hsize
  · by_cases hnew : k < ((w.loc s).sends d).length
    · rw [hread hnew] at hk
      obtain ⟨place, hplace, hplaced⟩ := h.read s d k bytes hk
      refine ⟨place, ?_, hplaced⟩
      rw [hsends]
      split
      · exact getElem?_mono (List.prefix_append _ _) hplace
      · exact hplace
    · by_cases heq : (s, d, k) = (r, 0, ((w.loc r).sends 0).length)
      · cases heq
        cases hself.symm.trans hk
        refine ⟨.array (sha1sum content).toList.length, ?_, rfl, fun b hb => nomatch hb⟩
        rw [hsends, if_pos ⟨rfl, rfl⟩]
        simp
      · have hold := (hother heq).symm.trans hk
        exact absurd (hlt hold) hnew
  · rw [(hrest s).2.2.2]
    by_cases hnew : k < ((w.loc s).sends d).length
    · rw [hread hnew]
      refine h.arrays s d k n ?_
      rw [hsends] at hk
      split at hk
      · rwa [List.getElem?_append_left hnew] at hk
      · exact hk
    · rw [hsends] at hk
      split at hk
      · rename_i hsd
        obtain ⟨rfl, rfl⟩ := hsd
        have hlast : k = ((w.loc s).sends 0).length := by
          have := (List.getElem?_eq_some_iff.1 hk).1
          rw [List.length_append, List.length_singleton] at this
          omega
        refine ⟨by rw [hcontent]; rfl, (sha1sum content).toList, ?_, fun hexact => ?_⟩
        · rw [hlast]
          exact hself
        · rw [(h.loaded s content hcontent).2 hexact]
          rfl
      · exact absurd (List.getElem?_eq_some_iff.1 hk).1 hnew
  · obtain ⟨hpaired, hold⟩ := h.got s d k bytes hk
    rw [World.called_pairs, hread (hlt hold)]
    exact ⟨hpaired, hold⟩
  · rw [(hrest d).1] at hk
    exact h.written s d k b hgot hk
  · rw [(hrest d).2.2.1] at hk
    exact h.complete s d k hk
  · rw [(hrest q).2.2.2] at hq
    refine ⟨?_, (h.loaded q content' hq).2⟩
    rw [World.called_loc]
    split
    · rename_i heq
      rw [heq]
      exact hthrough.upd _ _ rfl
    · exact (h.loaded q content' hq).1

/-- A call that at most posts a block or a receive. -/
theorem plain (h : Content sha1sum allocates params size mem₀ w) (hr : r < size) {a : MOp.Ans op}
    (heffect : w.effect hint r op = w) (hplan : OnPlan params size r ((w.loc r).upd op a))
    (harrays : ∀ d (k n : Nat), (((w.loc r).upd op a).sends d)[k]? = some (.array n) →
      ((w.loc r).sends d)[k]? = some (.array n))
    (hbarriers : ((w.loc r).upd op a).barriers = (w.loc r).barriers)
    (hcomplete : ((w.loc r).upd op a).complete = (w.loc r).complete)
    (hloaded : ((w.loc r).upd op a).loaded = (w.loc r).loaded) :
    Content sha1sum allocates params size mem₀ (w.called hint r op a) := by
  refine h.quiet hr heffect hplan harrays ?_ ?_ ?_ ?_ ?_
  · rw [hbarriers]
    exact h.barriers r
  · intro h0 d hd hsize
    subst h0
    rw [hbarriers]
    exact (h.ahead d hd hsize).trans (sends_upd _ op a d).length_le
  · intro s k hk
    rw [hcomplete] at hk
    exact h.complete s r k hk
  · rw [hloaded]
    exact id
  · intro content hcontent
    rw [hloaded] at hcontent
    obtain ⟨hthrough, hbytes⟩ := h.loaded r content hcontent
    exact ⟨hthrough.upd op a hbarriers, hbytes⟩

/-- **A careful call** keeps the invariant, and its answer is what the rank relies on. -/
theorem called (h : Content sha1sum allocates params size mem₀ w)
    (hdir : params.direction = .dirOut) (hpos : 0 < params.repeat_ * params.count) (hr : r < size)
    {a : MOp.Ans op} (ha : w.answer size hint r op = some a)
    (hok : Careful sha1sum allocates params size r (w.loc r) op)
    (hplan : OnPlan params size r ((w.loc r).upd op a)) :
    (trusting sha1sum params).adm (w.loc r) op a ∧
      Content sha1sum allocates params size mem₀ (w.called hint r op a) := by
  have hrepeat : 0 < params.repeat_ := Nat.pos_of_mul_pos_right hpos
  cases op with
  | barrierEnter =>
    obtain ⟨hlt, hsent⟩ := hok
    refine ⟨trivial, h.quiet hr rfl hplan (fun _ _ _ hk => hk) hlt (fun h0 d hd hsize => ?_)
      (fun s k hk => h.complete s r k hk) id
      fun content hcontent => ?_⟩
    · show ((w.loc r).barriers + 1 - 1) * params.count ≤ ((w.loc r).sends d).length
      rw [hsent h0 d hd hsize, Nat.add_sub_cancel]
    · -- behind the loop there are no barriers
      have := (h.loaded r content hcontent).1.barriers
      omega
  | barrierLeave => exact ⟨trivial, h.plain hr rfl hplan (fun _ _ _ hk => hk) rfl rfl rfl⟩
  | isend offset length dest request =>
    refine ⟨fun _ => (World.valid_of_answer ha).2,
      h.plain hr rfl hplan (fun d k n hk => ?_) rfl rfl rfl⟩
    change (post (w.loc r).sends dest _ d)[k]? = _ at hk
    rw [post_apply] at hk
    split at hk
    · rcases getElem?_concat.1 hk with hk | ⟨-, hplace⟩
      · exact hk
      · cases hplace
    · exact hk
  | requestFree request => exact ⟨trivial, h.plain hr rfl hplan (fun _ _ _ hk => hk) rfl rfl rfl⟩
  | irecv offset length src request =>
    exact ⟨fun _ => (World.valid_of_answer ha).2,
      h.plain hr rfl hplan (fun _ _ _ hk => hk) rfl rfl rfl⟩
  | testall totalCount =>
    simp only [World.answer] at ha
    split at ha
    · rename_i htest
      refine ⟨fun _ => htest.1, h.quiet hr rfl hplan (fun _ _ _ hk => hk) (h.barriers r)
        (fun h0 => h0 ▸ h.ahead) (fun s k hk => ?_) id
        fun content hcontent => ?_⟩
      · rcases List.mem_append.1 hk with hk | hk
        · exact h.complete s r k hk
        · obtain ⟨i, hi, hreq⟩ := List.mem_filterMap.1 hk
          have hany := htest.2 i (List.mem_range.1 hi)
          rwa [hreq] at hany
      · obtain ⟨hthrough, hbytes⟩ := h.loaded r content hcontent
        exact ⟨hthrough.upd _ _ rfl, hbytes⟩
    · cases ha
  | send data dest =>
    obtain ⟨rfl, h0, hthrough, content, hcontent, rfl⟩ := hok
    exact ⟨trivial, h.send hr h0 hthrough hcontent hplan⟩
  | recvPost length src => exact ⟨trivial, h.plain hr rfl hplan (fun _ _ _ hk => hk) rfl rfl rfl⟩
  | recvWait =>
    obtain ⟨rfl, -, src, h1, hsrc, hwaiting, -⟩ := hok
    have hgot : w.got (src, 0, 0) = some a := by
      simpa [World.answer, hwaiting] using ha
    refine ⟨fun hexact content hcontent => ?_, h.quiet hr rfl hplan (fun _ _ _ hk => hk)
      (h.barriers 0) (fun _ => h.ahead) (fun s k hk => ?_) id
      fun content hcontent => ?_⟩
    · obtain ⟨place, hplace, -, hmem⟩ := h.place_eq hgot
      have hread := (h.got src 0 0 a hgot).2
      cases place with
      | block b => exact absurd rfl (planned_block hdir hmem).2
      | array n =>
        obtain ⟨-, bytes, hbytes, hdigest⟩ := h.arrays src 0 0 n hplace
        obtain rfl := Option.some.inj (hread.symm.trans hbytes)
        rw [(h.loaded 0 content hcontent).2 hexact]
        exact hdigest hexact
    · rcases List.mem_append.1 hk with hk | hk
      · exact h.complete s 0 k hk
      · rw [hwaiting] at hk
        cases List.mem_singleton.1 hk
        rw [hgot]
        rfl
    · obtain ⟨hthrough, hbytes⟩ := h.loaded 0 content hcontent
      exact ⟨hthrough.upd _ _ rfl, hbytes⟩
  | mallocRandom size' =>
    obtain ⟨hallocates, hempty⟩ := hok
    have hloc : Function.update w.loc r ((w.loc r).upd (.mallocRandom size') a) = w.loc :=
      Function.update_eq_self r w.loc
    refine ⟨trivial, ?_⟩
    cases hf : hint.fresh with
    | none =>
      simp only [World.called, World.effect, hf, hloc]
      exact h
    | some bytes =>
      simp only [World.called, World.effect, hf, hloc]
      exact h.fresh hdir hpos hallocates hempty bytes _
  | store offset bytes =>
    obtain ⟨hallocates, hempty⟩ := hok
    have hloc : Function.update w.loc r ((w.loc r).upd (.store offset bytes) a) = w.loc :=
      Function.update_eq_self r w.loc
    refine ⟨trivial, ?_⟩
    simp only [World.called, World.effect, hloc]
    exact h.fresh hdir hpos hallocates hempty _ w.freed
  | load length =>
    obtain ⟨rfl, hthrough⟩ := hok
    refine ⟨trivial, h.quiet hr rfl hplan (fun _ _ _ hk => hk) (h.barriers r)
      (fun h0 => h0 ▸ h.ahead) (fun s k hk => h.complete s r k hk)
      (fun _ => rfl) fun content hcontent => ⟨hthrough.upd _ _ rfl, fun hexact => ?_⟩⟩
    have hanswer : bytesAt (w.mem r) (whole params) = a := by simpa [World.answer, whole] using ha
    obtain rfl : a = content := by simpa [Local.upd] using hcontent
    rw [← hanswer]
    refine bytesAt_congr fun x hx => ?_
    obtain ⟨n, hn, hcell⟩ := exists_cellOf hx
    exact h.received hdir hexact hrepeat hr hthrough hn hcell
  | free =>
    have hloc : Function.update w.loc r ((w.loc r).upd .free a) = w.loc :=
      Function.update_eq_self r w.loc
    refine ⟨trivial, ?_⟩
    simp only [World.called, World.effect, hloc]
    exact ⟨⟨h.aligned.onPlan, h.aligned.idle, h.aligned.pairs⟩, h.barriers, h.ahead,
      h.read, h.arrays, h.got, h.written, h.complete, h.loaded,
      fun hno => absurd hok.1 hno⟩
  | getCycles => exact ⟨trivial, h.plain hr rfl hplan (fun _ _ _ hk => hk) rfl rfl rfl⟩
  | logError format => exact ⟨trivial, h.plain hr rfl hplan (fun _ _ _ hk => hk) rfl rfl rfl⟩
  | logRound i rank bytes start end_ =>
    exact ⟨trivial, h.plain hr rfl hplan (fun _ _ _ hk => hk) rfl rfl rfl⟩

/-- A message is read out: what it holds then stands in the buffer. -/
theorem tick_read (h : Content sha1sum allocates params size mem₀ w) {s d k : Nat} {b : Range}
    (hplace : ((w.loc s).sends d)[k]? = some (.block b)) (hread : w.read (s, d, k) = none) :
    Content sha1sum allocates params size mem₀
      { w with read := Function.update w.read (s, d, k) (some (bytesAt (w.mem s) b)) } := by
  -- nothing that has been read out before changes
  have hold : ∀ {x bytes}, w.read x = some bytes →
    Function.update w.read (s, d, k) (some (bytesAt (w.mem s) b)) x = some bytes := by
    intro x bytes hx
    rw [Function.update_of_ne, hx]
    rintro rfl
    rw [hread] at hx
    cases hx
  refine ⟨⟨h.aligned.onPlan, h.aligned.idle, h.aligned.pairs⟩, h.barriers, h.ahead,
    fun s' d' k' bytes hbytes => ?_,
    fun s' d' k' n hk => ?_, fun s' d' k' bytes hk => ?_, h.written, h.complete,
      h.loaded, h.original⟩
  · by_cases hx : (s', d', k') = (s, d, k)
    · cases hx
      obtain rfl : bytesAt (w.mem s) b = bytes := by simpa using hbytes
      refine ⟨_, hplace, length_bytesAt _ _, fun r hr => ?_⟩
      cases hr
      rfl
    · refine h.read s' d' k' bytes ?_
      rw [← hbytes]
      exact (Function.update_of_ne hx _ _).symm
  · obtain ⟨hl, bytes, hbytes, hdigest⟩ := h.arrays s' d' k' n hk
    exact ⟨hl, bytes, hold hbytes, hdigest⟩
  · obtain ⟨hpaired, hbytes⟩ := h.got s' d' k' bytes hk
    exact ⟨hpaired, hold hbytes⟩

/-- Only rank 0 sends blocks. -/
theorem sender (h : Content sha1sum allocates params size mem₀ w)
    (hdir : params.direction = .dirOut) {s d k : Nat} {b : Range}
    (hsent : ((w.loc s).sends d)[k]? = some (.block b)) : s = 0 ∧ d ≠ 0 := by
  by_cases hs : s < size
  · exact planned_block hdir (((h.aligned.onPlan s hs).sends d).subset (List.mem_of_getElem? hsent))
  · rw [h.aligned.idle s (by omega)] at hsent
    cases hsent

/-- A message arrives: it is what rank 0 has at that place. -/
theorem tick_deliver (h : Content sha1sum allocates params size mem₀ w)
    (hdir : params.direction = .dirOut) {s d k : Nat} {bytes : List UInt8} {place : Place}
    (hpaired : k < (w.pairs (s, d)).length) (hread : w.read (s, d, k) = some bytes)
    (hplace : ((w.loc d).recvs s)[k]? = some place) :
    Content sha1sum allocates params size mem₀ (w.arrive s d k bytes place) := by
  obtain ⟨-, place', hsent, hposted⟩ := h.aligned.inStep s d k _ (List.getElem?_eq_getElem hpaired)
  obtain rfl := Option.some.inj (hposted.symm.trans hplace)
  have hgot : ∀ s' d' k' bytes',
    Function.update w.got (s, d, k) (some bytes) (s', d', k') = some bytes' →
      k' < (w.pairs (s', d')).length ∧ w.read (s', d', k') = some bytes' := by
    intro s' d' k' bytes' hx
    rw [Function.update_apply] at hx
    split at hx
    · rename_i heq
      cases heq
      cases hx
      exact ⟨hpaired, hread⟩
    · exact h.got s' d' k' bytes' hx
  have hcomplete : ∀ s' d' k', (s', k') ∈ (w.loc d').complete →
    (Function.update w.got (s, d, k) (some bytes) (s', d', k')).isSome := by
    intro s' d' k' hk
    rw [Function.update_apply]
    split
    · rfl
    · exact h.complete s' d' k' hk
  -- a receive that has something now had it before, or is this one
  have hwas : ∀ {s' d' k'}, (Function.update w.got (s, d, k) (some bytes) (s', d', k')).isSome →
      (s', d', k') = (s, d, k) ∨ (w.got (s', d', k')).isSome := by
    intro s' d' k' hx
    rw [Function.update_apply] at hx
    split at hx
    · rename_i heq
      exact .inl heq
    · exact .inr hx
  cases hp : place' with
  | array n =>
    refine ⟨⟨h.aligned.onPlan, h.aligned.idle, h.aligned.pairs⟩, h.barriers, h.ahead,
      h.read, h.arrays, hgot, fun s' d' k' r hx hk => ?_, hcomplete,
      h.loaded, h.original⟩
    rcases hwas hx with heq | hx
    · cases heq
      rw [hp] at hplace
      cases hplace.symm.trans hk
    · exact h.written s' d' k' r hx hk
  | block b =>
    subst hp
    obtain ⟨rfl, hd⟩ := h.sender hdir hsent
    obtain ⟨place, hplace', -, hbytes⟩ := h.read 0 d k bytes hread
    obtain rfl := hbytes b (Option.some.inj (hplace'.symm.trans hsent))
    have hzero : Function.update w.mem d (writeAt (w.mem d) b.base (bytesAt (w.mem 0) b)) 0 =
      w.mem 0 := Function.update_of_ne (Ne.symm hd) _ _
    -- every rank other than `d` keeps its buffer, and `d` gets nothing that is not rank 0's
    have hmem : ∀ q a,
      Function.update w.mem d (writeAt (w.mem d) b.base (bytesAt (w.mem 0) b)) q a =
        if q = d ∧ b.Contains a then w.mem 0 a else w.mem q a := by
      intro q a
      rw [Function.update_apply]
      by_cases hq : q = d
      · rw [if_pos hq, writeAt_bytesAt, hq]
        simp
      · rw [if_neg hq, if_neg fun h => hq h.1]
    refine ⟨⟨h.aligned.onPlan, h.aligned.idle, h.aligned.pairs⟩, h.barriers, h.ahead,
      fun s' d' k' bytes hx => ?_, fun s' d' k' n hk => ?_,
      hgot, fun s' d' k' r hx hk a ha => ?_, hcomplete, fun r content hr => ?_, fun hno => ?_⟩
    · obtain ⟨place, hplace, hlen, hbytes⟩ := h.read s' d' k' bytes hx
      refine ⟨place, hplace, hlen, fun r hr => ?_⟩
      subst hr
      obtain ⟨rfl, -⟩ := h.sender hdir hplace
      show bytes = bytesAt (Function.update w.mem d _ 0) r
      rw [hzero]
      exact hbytes r rfl
    · show _ ∧ ∃ bytes, _ ∧ (_ → bytes = (sha1sum (bytesAt (Function.update w.mem d _ 0) _)).toList)
      rw [hzero]
      exact h.arrays s' d' k' n hk
    · show Function.update w.mem d _ d' a = Function.update w.mem d _ 0 a
      rw [hzero, hmem]
      split
      · rfl
      · rename_i hno
        rcases hwas hx with heq | hx
        · cases heq
          cases hplace.symm.trans hk
          exact absurd ⟨rfl, ha⟩ hno
        · exact h.written s' d' k' r hx hk a ha
    · show _ ∧ (_ → content = bytesAt (Function.update w.mem d _ 0) _)
      rw [hzero]
      exact h.loaded r content hr
    · show Function.update w.mem d _ 0 = mem₀ ∧ _
      rw [hzero]
      exact h.original hno

theorem tick (h : Content sha1sum allocates params size mem₀ w) (hdir : params.direction = .dirOut)
    (hlive : ∀ s d k b, ((w.loc s).sends d)[k]? = some (.block b) → w.read (s, d, k) = none →
      w.freed s = false) {t : Tick} (ht : w.tick t = some w') :
    Content sha1sum allocates params size mem₀ w' := by
  have haligned := h.aligned.tick ht
  cases World.tick_cases ht with
  | @pair s d pairs hpairs =>
    refine ⟨haligned, h.barriers, h.ahead, h.read, h.arrays, fun s' d' k bytes hk => ?_,
      h.written, h.complete, h.loaded, h.original⟩
    obtain ⟨hpaired, hread⟩ := h.got s' d' k bytes hk
    refine ⟨?_, hread⟩
    show k < (Function.update w.pairs (s, d) pairs (s', d')).length
    rw [Function.update_apply]
    split
    · rename_i heq
      cases heq
      -- one pair more
      obtain ⟨i, -, hpairs⟩ := Option.bind_eq_some_iff.1 hpairs
      obtain ⟨j, -, hpairs⟩ := Option.bind_eq_some_iff.1 hpairs
      cases hpairs
      rw [List.length_append]
      omega
    · exact hpaired
  | read hplace hread =>
    rw [World.visible_of_live (hlive _ _ _ _ hplace hread)]
    exact h.tick_read hplace hread
  | @deliver s d k x bytes place hx hread _ hplace _ _ =>
    obtain ⟨rfl, -⟩ := h.aligned.inStep s d k x hx
    exact h.tick_deliver hdir (List.getElem?_eq_some_iff.1 hx).1 hread hplace

end Content

/-- **In every state** of programs that free nothing. -/
theorem content_reachable {α : Type} {m : Monitor Mpi Local} {Q : Fin size → α → Local → Prop}
    {prog : Fin size → MProg α} {mem : Nat → Nat → UInt8} {c : Conf (mpi size) α}
    (hupd : m.upd = Local.upd) (hadm : m.adm = (trusting sha1sum params).adm)
    (hallocates : ¬ allocates) (hdir : params.direction = .dirOut) (hpos : 0 < params.repeat_ * params.count)
    (hplanned : ∀ rank : Fin size, Safe m (fun l op => ∀ a, OnPlan params size rank (l.upd op a))
      (prog rank) {} fun _ _ => True)
    (hcareful : ∀ rank : Fin size, Safe m (Careful sha1sum allocates params size rank) (prog rank) {} (Q rank))
    (hc : Reachable AnyMpiStep (launch mem prog) c) :
    Content sha1sum allocates params size (mem 0) c.st ∧
      ∀ rank : Fin size, Safe m (Careful sha1sum allocates params size rank) (c.prog rank)
      (World.loc c.st rank) (Q rank) := by
  have hinv := mpi_invariant (I := Content sha1sum allocates params size (mem 0)) hupd ?_
    (fun t w w' _ h ht => h.tick hdir (fun s _ _ _ _ _ => (h.original hallocates).2 s) ht)
    (Content.start sha1sum mem) (fun rank => (hcareful rank).both (hplanned rank)) hc
  · refine ⟨hinv.1, fun rank => ?_⟩
    exact ((hinv.2 rank).relax rfl (fun _ _ _ h => h) id fun _ _ h => h.1).mono fun _ _ h => h.1
  · intro rank hint op a w _ h hok ha
    rw [hadm]
    exact h.called hdir hpos rank.isLt ha hok.1 (hok.2 a)

end sha1

end RdmaOpera.MpiExec
