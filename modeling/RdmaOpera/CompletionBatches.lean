import RdmaOpera.RdmaRules

/-!
# The batches of completions

`dccs_rdma_send_comp` tells every poll that there is room for `num` entries (`dccs_rdma.h:252`),
though `wc_arr + sum` has room for `num - sum` only.
-/

namespace RdmaOpera

open Lib Prog

/-- A completion queue: what is in it or arrives later, oldest first, what its polls are going to
return, and what they have stored into `wc_arr` so far. -/
structure Cq where
  arriving : List Wc
  sizes : List Nat
  stored : List Wc := []

/-- `do { rv = ibv_poll_cq(..); } while (rv == 0);` -/
def nextBatch : List Nat → Option (Nat × List Nat)
  | [] => none
  | 0 :: sizes => nextBatch sizes
  | (size + 1) :: sizes => some (size + 1, sizes)

/-- A poll takes the oldest entries, and no more than it is told to. -/
def polling : Monitor Verbs Cq where
  upd cq
    | .pollSend _, (p : Poll) =>
      ⟨cq.arriving.drop p.wcs.length, ((nextBatch cq.sizes).map Prod.snd).getD [],
        cq.stored ++ p.wcs⟩
    | _, _ => cq
  adm cq
    | .pollSend k, (p : Poll) => ∃ size rest, nextBatch cq.sizes = some (size, rest) ∧ size ≤ k ∧
      size ≤ cq.arriving.length ∧ p.wcs = cq.arriving.take size
    | _, _ => True
  spins := False

/-- The sizes are what polls with the limit `num` can return. -/
structure Cq.Fits (num : Nat) (cq : Cq) : Prop where
  limit : ∀ size ∈ cq.sizes, size ≤ num
  present : cq.sizes.sum ≤ cq.arriving.length

/-- The call stays inside its array, and collects the first `num` completions if they are
successful. -/
structure CollectsExactly (num : Nat) (cq : Cq) : Prop where
  inside : ∀ q t, Reach polling (sendCompFrom num num []) cq q t → t.stored.length ≤ num
  exact : (∀ w ∈ cq.arriving.take num, w.success) →
    ∀ r t, Reach polling (sendCompFrom num num []) cq (.ret r) t →
    r = ((num : Int), cq.arriving.take num) ∧ t.stored = r.2 ∧ t.arriving = cq.arriving.drop num
  returns : num ≤ cq.sizes.sum → ∃ r t, Reach polling (sendCompFrom num num []) cq (.ret r) t

/-- No batch reaches from before the end of the array to behind it. -/
def NoneAcross (num : Nat) (cq : Cq) : Prop := ∀ i < cq.sizes.length, (cq.sizes.take i).sum < num →
  (∀ w ∈ cq.arriving.take (cq.sizes.take i).sum, w.success) → (cq.sizes.take (i + 1)).sum ≤ num

/-! ## The next batch -/

section
variable {num : Nat} {sizes rest : List Nat} {size : Nat}

theorem NoneAcross.split {cq : Cq} (h : NoneAcross num cq) {before after : List Nat}
    (hsizes : cq.sizes = before ++ size :: after) (hlt : before.sum < num)
    (hgood : ∀ w ∈ cq.arriving.take before.sum, w.success) : before.sum + size ≤ num := by
  have htake : cq.sizes.take before.length = before := by rw [hsizes, List.take_left]
  have htake' : cq.sizes.take (before.length + 1) = before ++ [size] := by
    rw [hsizes, List.append_cons, List.take_left' (by rw [List.length_append]; rfl)]
  have hroom := h before.length (by rw [hsizes, List.length_append, List.length_cons]; omega)
  rw [htake, htake', List.sum_append, List.sum_singleton] at hroom
  exact hroom hlt hgood

theorem nextBatch_some :
    ∀ sizes, nextBatch sizes = some (size, rest) → ∃ z, sizes = List.replicate z 0 ++
      size :: rest ∧ 0 < size
  | 0 :: sizes, h => by
    obtain ⟨z, hsizes, hpos⟩ := nextBatch_some sizes h
    exact ⟨z + 1, by rw [hsizes]; rfl, hpos⟩
  | (n + 1) :: sizes, h => by
    cases h
    exact ⟨0, rfl, Nat.succ_pos n⟩

theorem nextBatch_replicate (hpos : 0 < size) (rest : List Nat) :
    ∀ z, nextBatch (List.replicate z 0 ++ size :: rest) = some (size, rest)
  | 0 => by
    obtain ⟨n, rfl⟩ := Nat.exists_eq_succ_of_ne_zero hpos.ne'
    rfl
  | z + 1 => nextBatch_replicate hpos rest z

theorem nextBatch_of_sum_pos :
    ∀ sizes : List Nat, 0 < sizes.sum → ∃ size rest, nextBatch sizes = some (size, rest)
  | 0 :: sizes, h => nextBatch_of_sum_pos sizes (by simpa using h)
  | (n + 1) :: sizes, _ => ⟨n + 1, sizes, rfl⟩

/-- A poll that stores these entries. -/
def Poll.ofWcs : List Wc → Poll
  | [] => .failed
  | wc :: rest => .got wc rest

@[simp] theorem Poll.wcs_ofWcs (wcs : List Wc) : (Poll.ofWcs wcs).wcs = wcs := by cases wcs <;> rfl

theorem Cq.Fits.next {cq : Cq} (h : cq.Fits num) (hnext : nextBatch cq.sizes = some (size, rest)) :
    size ≤ num ∧ size ≤ cq.arriving.length ∧ cq.sizes.sum = size + rest.sum ∧
      ∀ stored, Cq.Fits num ⟨cq.arriving.drop size, rest, stored⟩ := by
  obtain ⟨z, hsizes, -⟩ := nextBatch_some _ hnext
  have hsum : cq.sizes.sum = size + rest.sum := by rw [hsizes]; simp
  have hpresent := h.present
  refine ⟨h.limit size (by rw [hsizes]; simp),
    by omega, hsum, fun stored => ⟨fun n hn => h.limit n ?_, ?_⟩⟩
  · rw [hsizes]
    simp [show n ∈ rest from hn]
  · show rest.sum ≤ (cq.arriving.drop size).length
    rw [List.length_drop]
    omega

/-! ## It returns -/

/-- As long as not enough has been stored another batch will come. -/
theorem sendCompFrom_returns {cq : Cq} (hfits : cq.Fits num) (hsum : num ≤ cq.sizes.sum) :
    ∃ r t, Reach polling (sendCompFrom num num []) cq (.ret r) t := by
  have hquiet : Quiet polling fun cq o => ∃ a, polling.adm cq o a :=
    ⟨fun _ _ => ⟨(), trivial⟩, fun _ _ _ => rfl⟩
  have hsafe : Safe polling (fun cq o => ∃ a, polling.adm cq o a) (sendCompFrom num num []) cq
    fun _ _ => True := by
    refine hquiet.sendCompFrom (fun wcArr t => t.Fits num ∧ num ≤ wcArr.length + t.sizes.sum)
      (fun wcArr t hlt hI => ?_)
      (fun _ _ _ _ => trivial) num [] cq (by simp) ⟨hfits, by simpa using hsum⟩
    obtain ⟨hfits, hsum⟩ := hI
    obtain ⟨size, rest, hnext⟩ := nextBatch_of_sum_pos t.sizes (by omega)
    obtain ⟨hlimit, hpresent, hsizes, hrest⟩ := hfits.next hnext
    refine ⟨⟨Poll.ofWcs (t.arriving.take size), size, rest, hnext, hlimit, hpresent,
      Poll.wcs_ofWcs _⟩, fun p hp => ?_⟩
    obtain ⟨size', rest', hnext', -, -, hwcs⟩ := hp
    rw [hnext] at hnext'
    cases hnext'
    have hlen : p.wcs.length = size := by rw [hwcs, List.length_take_of_le hpresent]
    split
    · show Cq.Fits num ⟨t.arriving.drop p.wcs.length, ((nextBatch t.sizes).map Prod.snd).getD [],
        t.stored ++ p.wcs⟩ ∧
        num ≤ (wcArr ++ p.wcs).length + (((nextBatch t.sizes).map Prod.snd).getD []).sum
      rw [hnext, List.length_append, hlen]
      exact ⟨hrest _, by show num ≤ wcArr.length + size + rest.sum; omega⟩
    · trivial
  obtain ⟨r, t, hreach, -⟩ := hsafe.returns id fun _ _ h => h
  exact ⟨r, t, hreach⟩

/-! ## It stays inside its array -/

/-- No poll stores more than there is room for. -/
def Roomy (num : Nat) (cq : Cq) : VOp → Prop
  | .pollSend k => ∀ p, polling.adm cq (.pollSend k) p → cq.stored.length + p.wcs.length ≤ num
  | _ => True

/-- The array, and the part of the queue that it was filled from. -/
structure Collecting (num : Nat) (cq : Cq) (wcArr : List Wc) (t : Cq) : Prop where
  stored : t.stored = wcArr
  room : wcArr.length ≤ num
  good : ∀ w ∈ wcArr, w.success
  taken : wcArr = cq.arriving.take wcArr.length
  arriving : t.arriving = cq.arriving.drop wcArr.length
  sizes : ∃ before, cq.sizes = before ++ t.sizes ∧ before.sum = wcArr.length

theorem Collecting.next {cq t : Cq} {wcArr : List Wc} (h : Collecting num cq wcArr t)
    (hacross : NoneAcross num cq) (hlt : wcArr.length < num) {k : Nat} {p : Poll}
    (hp : polling.adm t (.pollSend k) p) :
    wcArr ++ p.wcs = cq.arriving.take (wcArr.length + p.wcs.length) ∧
      wcArr.length + p.wcs.length ≤ num ∧ p ≠ .failed ∧
      ((∀ w ∈ p.wcs, w.success) →
      Collecting num cq (wcArr ++ p.wcs) (polling.upd t (.pollSend k) p)) := by
  obtain ⟨hstored, -, hgood, htaken, harriving, before, hsizes, hsum⟩ := h
  obtain ⟨size, rest, hnext, -, hpresent, hwcs⟩ := hp
  obtain ⟨z, hz, hpos⟩ := nextBatch_some _ hnext
  have hlen : p.wcs.length = size := by rw [hwcs, List.length_take_of_le hpresent]
  have hbefore : cq.sizes = (before ++ List.replicate z 0) ++ size :: rest := by
    rw [hsizes, hz, List.append_assoc]
  have hsum' : (before ++ List.replicate z 0).sum = wcArr.length := by simp [hsum]
  have hroom : wcArr.length + size ≤ num := by
    have hnone := hacross.split hbefore
    rw [hsum', ← htaken] at hnone
    exact hnone hlt hgood
  have happend : wcArr ++ p.wcs = cq.arriving.take (wcArr.length + size) := by
    rw [List.take_add, ← htaken, hwcs, harriving]
  refine ⟨by rw [hlen, happend], by rw [hlen]; exact hroom, ?_, fun hgood' => ?_⟩
  · rintro rfl
    exact hpos.ne hlen
  · refine ⟨?_, ?_, fun w hw => ?_, ?_, ?_, before ++ List.replicate z 0 ++ [size], ?_, ?_⟩
    · show t.stored ++ p.wcs = wcArr ++ p.wcs
      rw [hstored]
    · rw [List.length_append, hlen]
      exact hroom
    · exact (List.mem_append.1 hw).elim (hgood w) (hgood' w)
    · rw [List.length_append, hlen]
      exact happend
    · show t.arriving.drop p.wcs.length = _
      rw [harriving, List.drop_drop, List.length_append]
    · show cq.sizes = _ ++ ((nextBatch t.sizes).map Prod.snd).getD []
      rw [hnext, hbefore, List.append_cons]
      rfl
    · rw [List.sum_append, hsum', List.length_append, hlen]
      simp

theorem safe_collecting {cq : Cq} (hacross : NoneAcross num cq) (hstored : cq.stored = []) :
    Safe polling (Roomy num) (sendCompFrom num num []) cq fun r t =>
      (∀ w ∈ cq.arriving.take num, w.success) → r = ((num : Int), cq.arriving.take num) ∧
      t.stored = r.2 ∧
        t.arriving = cq.arriving.drop num := by
  have hquiet : Quiet polling (Roomy num) := ⟨fun _ _ => trivial, fun _ _ _ => rfl⟩
  refine hquiet.sendCompFrom (Collecting num cq) (fun wcArr t hlt hI => ?_)
    (fun wcArr t hge hI _ => ?_) num [] cq (by simp)
    ⟨hstored, Nat.zero_le _, (fun _ h => nomatch h), rfl, rfl, [], rfl, rfl⟩
  · have hlt' : wcArr.length < num := by omega
    refine ⟨fun p hp => ?_, fun p hp => ?_⟩
    · rw [hI.stored]
      exact (hI.next hacross hlt' hp).2.1
    · obtain ⟨happend, hroom, hne, hnext⟩ := hI.next hacross hlt' hp
      split
      · rename_i hrv
        exact hnext (Poll.rv_nonneg.1 hrv).2
      · rename_i hrv
        refine fun hgood => absurd (Poll.rv_nonneg.2 ⟨hne, fun w hw => hgood w ?_⟩) hrv
        have hmem : w ∈ wcArr ++ p.wcs := List.mem_append_right _ hw
        rw [happend] at hmem
        exact (List.take_subset_take_left _ hroom) hmem
  · have hlen : wcArr.length = num := by
      have := hI.room
      omega
    rw [← hlen, ← hI.taken, ← hI.arriving]
    exact ⟨rfl, hI.stored, rfl⟩

/-- So the entries stored are within the array at any time. -/
theorem stored_le {cq q : Cq} {p : VProg (Int × List Wc)} (hacross : NoneAcross num cq)
    (hstored : cq.stored = []) (h : Reach polling (sendCompFrom num num []) cq p q) :
    q.stored.length ≤ num := by
  have hkeep : ∀ t o a, t.stored.length ≤ num → Roomy num t o → polling.adm t o a →
    (polling.upd t o a).stored.length ≤ num := by
    intro t o a hI hroomy ha
    cases o with
    | pollSend k =>
      show (t.stored ++ Poll.wcs a).length ≤ num
      rw [List.length_append]
      exact hroomy a ha
    | _ => exact hI
  have hsafe : Safe polling (fun t _ => t.stored.length ≤ num) (sendCompFrom num num []) cq
    fun _ t => t.stored.length ≤ num :=
    ((safe_collecting hacross hstored).invariant (by rw [hstored]; exact Nat.zero_le _)
      (fun _ _ hI _ => hI) hkeep).mono
      fun _ _ h => h.2
  have hq := hsafe.reach h
  cases p with
  | ret r => exact hq
  | call o k => exact hq.1
  | spin => exact hq.elim

/-! ## Or it does not -/

/-- One poll of the loop. -/
theorem reach_poll {arriving : List Wc} (stored : List Wc) (fuel : Nat)
    (hnext : nextBatch sizes = some (size, rest)) (hlimit : size ≤ num)
    (hpresent : size ≤ arriving.length) (hlt : stored.length < num) :
    ∃ q, Reach polling (sendCompFrom num (fuel + 1) stored) ⟨arriving, sizes, stored⟩ q
        ⟨arriving.drop size, rest, stored ++ arriving.take size⟩ ∧
      ((∀ w ∈ arriving.take size, w.success) →
      q = sendCompFrom num fuel (stored ++ arriving.take size)) := by
  obtain ⟨-, -, hpos⟩ := nextBatch_some _ hnext
  obtain ⟨wc, more, hwcs⟩ : ∃ wc more, arriving.take size = wc :: more := by
    cases htake : arriving.take size with
    | nil =>
      have hlen := congrArg List.length htake
      rw [List.length_take_of_le hpresent] at hlen
      exact absurd hlen hpos.ne'
    | cons wc more => exact ⟨wc, more, rfl⟩
  have hlen : (wc :: more).length = size := by rw [← hwcs, List.length_take_of_le hpresent]
  have hadm : polling.adm ⟨arriving, sizes, stored⟩ (.pollSend num) (Poll.got wc more) :=
    ⟨size, rest, hnext, hlimit, hpresent, hwcs.symm⟩
  have hupd : polling.upd ⟨arriving, sizes, stored⟩ (.pollSend num) (Poll.got wc more) =
      ⟨arriving.drop size, rest, stored ++ arriving.take size⟩ := by
    show Cq.mk (arriving.drop (wc :: more).length) (((nextBatch sizes).map Prod.snd).getD [])
      (stored ++ wc :: more) = _
    rw [hlen, hnext, hwcs]
    rfl
  rw [sendCompFrom, if_pos (by omega), ← hupd]
  refine ⟨_, Reach.call (Poll.got wc more) hadm (Reach.refl _ _), fun hgood => ?_⟩
  rw [hwcs] at hgood ⊢
  exact if_pos hgood

/-- The batch across the end is stored whole. -/
theorem reach_across :
    ∀ (before : List Nat) (z : Nat) (arriving stored : List Wc) (fuel : Nat) (size : Nat) (after : List Nat),
    Cq.Fits num ⟨arriving, List.replicate z 0 ++ before ++ size :: after, stored⟩ →
      num ≤ stored.length + fuel →
    stored.length + before.sum < num → num < stored.length + before.sum + size →
    (∀ w ∈ arriving.take before.sum, w.success) →
    ∃ q t, Reach polling (sendCompFrom num fuel stored) ⟨arriving, List.replicate z 0 ++
      before ++ size :: after, stored⟩ q t ∧
      num < t.stored.length := by
  intro before
  induction before with
  | nil =>
    intro z arriving stored fuel size after hfits hfuel hlt hacross _
    rw [List.append_nil] at hfits ⊢
    rw [List.sum_nil] at hlt hacross
    obtain ⟨fuel, rfl⟩ := Nat.exists_eq_succ_of_ne_zero (show fuel ≠ 0 by omega)
    have hnext := nextBatch_replicate (show 0 < size by omega) after z
    obtain ⟨hlimit, hpresent, -, -⟩ := hfits.next hnext
    obtain ⟨q, hreach, -⟩ := reach_poll stored fuel hnext hlimit hpresent hlt
    refine ⟨q, _, hreach, ?_⟩
    show num < (stored ++ arriving.take size).length
    rw [List.length_append, List.length_take_of_le hpresent]
    exact hacross
  | cons b before ih =>
    intro z arriving stored fuel size after hfits hfuel hlt hacross hgood
    rw [List.sum_cons] at hlt hacross hgood
    cases b with
    | zero =>
      have hz : List.replicate z 0 ++ 0 :: before ++ size :: after = List.replicate (z + 1) 0 ++
        before ++ size :: after := by
        rw [List.replicate_succ', List.append_assoc (List.replicate z 0) [0]]
        rfl
      rw [hz] at hfits ⊢
      rw [Nat.zero_add] at hlt hacross hgood
      exact ih (z + 1) arriving stored fuel size after hfits hfuel hlt hacross hgood
    | succ b =>
      obtain ⟨fuel, rfl⟩ := Nat.exists_eq_succ_of_ne_zero (show fuel ≠ 0 by omega)
      rw [List.append_assoc, List.cons_append] at hfits ⊢
      have hnext := nextBatch_replicate (Nat.succ_pos b) (before ++ size :: after) z
      obtain ⟨hlimit, hpresent, -, hrest⟩ := hfits.next hnext
      obtain ⟨q, hreach, hq⟩ := reach_poll stored fuel hnext hlimit hpresent (by omega)
      rw [List.take_add] at hgood
      rw [hq fun w hw => hgood w (List.mem_append_left _ hw)] at hreach
      have hlen : (stored ++ arriving.take (b + 1)).length = stored.length + (b + 1) := by
        rw [List.length_append, List.length_take_of_le hpresent]
      obtain ⟨q', t, hreach', ht⟩ :=
        ih 0 (arriving.drop (b + 1)) (stored ++ arriving.take (b + 1)) fuel size after (hrest _)
        (by omega) (by omega) (by omega) fun w hw => hgood w (List.mem_append_right _ hw)
      exact ⟨q', t, hreach.trans hreach', ht⟩

/-- **Completion collection.** -/
theorem collectsExactly_iff {arriving : List Wc} (hfits : Cq.Fits num ⟨arriving, sizes, []⟩) :
    CollectsExactly num ⟨arriving, sizes, []⟩ ↔ NoneAcross num ⟨arriving, sizes, []⟩ := by
  constructor
  · rintro ⟨hinside, -, -⟩ i hi hlt hgood
    have hsplit : sizes = List.replicate 0 0 ++ sizes.take i ++ sizes[i] :: sizes.drop (i + 1) := by
      rw [← List.drop_eq_getElem_cons hi]
      exact (List.take_append_drop i sizes).symm
    rw [List.take_succ_eq_append_getElem hi, List.sum_append, List.sum_singleton]
    refine not_lt.1 fun hacross => ?_
    obtain ⟨q, t, hreach, ht⟩ :=
      reach_across (sizes.take i) 0 arriving [] num sizes[i] (sizes.drop (i + 1)) (hsplit ▸ hfits)
      (by simp) (by simpa using hlt) (by simpa using hacross) hgood
    rw [← hsplit] at hreach
    exact absurd (hinside q t hreach) (not_le.2 ht)
  · intro hacross
    exact ⟨fun q t h => stored_le hacross rfl h,
      fun hgood r t h => (safe_collecting hacross rfl).reach h hgood,
      fun hsum => sendCompFrom_returns hfits hsum⟩

/-- Three completions are collected one, nothing, and two at a time. -/
theorem collectsExactly_iff_three :
    CollectsExactly 3 ⟨[.good, .good, .good, .bad], [1, 0, 2, 1], []⟩ := by
  have hfits : Cq.Fits 3 ⟨[.good, .good, .good, .bad], [1, 0, 2, 1], []⟩ := ⟨by decide, by decide⟩
  exact (collectsExactly_iff hfits).2 (by unfold NoneAcross; decide)

/-- With two to collect and three there, the second poll stores behind the array. -/
theorem collectsExactly_counterexample : Cq.Fits 2 ⟨[.good, .good, .good], [1, 2], []⟩ ∧
    (∃ t, Reach polling (sendCompFrom 2 2 []) ⟨[.good, .good, .good], [1, 2], []⟩
      (.ret (3, [.good, .good, .good])) t) ∧
    ¬ CollectsExactly 2 ⟨[.good, .good, .good], [1, 2], []⟩ := by
  have hreach : Reach polling (sendCompFrom 2 2 []) ⟨[.good, .good, .good], [1, 2], []⟩
    (.ret (3, [.good, .good, .good]))
      ⟨[], [], [.good, .good, .good]⟩ := by
    refine .call (Poll.got .good []) ⟨1, [2], rfl, by decide, by decide, rfl⟩ ?_
    exact .call (Poll.got .good [.good]) ⟨2, [], rfl, by decide, by decide, rfl⟩ (.refl _ _)
  refine ⟨⟨by decide, by decide⟩, ⟨_, hreach⟩, fun h => ?_⟩
  exact absurd (h.inside _ _ hreach) (by decide)

end

end RdmaOpera
