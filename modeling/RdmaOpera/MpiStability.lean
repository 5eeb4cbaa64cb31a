import RdmaOpera.MpiAgreement

/-!
# What MPI has still to read

`send_messages` gives its requests up at once (`MPI_FIRE_AND_FORGET`), so nothing waits for a block
to be read out before `run` receives into the same buffer and frees it. In the direction 1-N rank 0
frees its buffer behind the digests of all other ranks, and those are behind its blocks. In the
other directions there is nothing of that kind.
-/

namespace RdmaOpera.MpiExec

open Lib Prog

/-! ## Stability -/

/-- A block that MPI has still to read. -/
def Outstanding (w : World) (r : Nat) (b : Range) : Prop :=
  ∃ d k, ((w.loc r).sends d)[k]? = some (.block b) ∧ w.read (r, d, k) = none

/-- The call writes to this offset of the buffer. -/
def Stores (a : Nat) : MOp → Prop
  | .mallocRandom _ => True
  | .store offset bytes => (⟨offset, bytes.length⟩ : Range).Contains a
  | _ => False

/-- A message arrives at this offset of the buffer of rank `r`. -/
def Delivers (w : World) (r a : Nat) : Tick → Prop
  | .deliver s d k =>
    d = r ∧ ∃ x bytes b, (w.pairs (s, d))[k]? = some x ∧ w.read (s, d, x.1) = some bytes ∧
      ((w.loc d).recvs s)[x.2]? = some (.block b) ∧ (⟨b.base, bytes.length⟩ : Range).Contains a
  | _ => False

section stability
variable {size : Nat}

/-- The step writes to this offset of the buffer of rank `r`. -/
def Writes (c : Conf (mpi size) Int) (r a : Nat) : Label (mpi size) → Prop
  | .call p _ => p.val = r ∧ ∃ op k, c.prog p = .call op k ∧ Stores a op
  | .tick t => Delivers c.st r a t

/-- No step writes to a block that MPI has still to read, and its buffer is not freed. -/
structure Stable (c : Conf (mpi size) Int) : Prop where
  unwritten : ∀ r b, Outstanding c.st r b → ∀ l c', c.next l = some c' → ∀ a, b.Contains a →
    ¬ Writes c r a l
  present : ∀ r b, Outstanding c.st r b → World.freed c.st r = false

/-- In every state of every run of either build. -/
def BufferStability (sha1sum : List UInt8 → Digest) (testSyncPacket : Bool) (size : Nat)
    (params : DccsParameters) : Prop :=
  ∀ mem c, Reachable AnyMpiStep
    (launch mem fun rank : Fin size => runOf sha1sum testSyncPacket size rank params) c → Stable c

theorem writeAt_of_not_contains {mem : Nat → UInt8} {offset a : Nat} {bytes : List UInt8}
    (h : ¬ (⟨offset, bytes.length⟩ : Range).Contains a) :
    writeAt mem offset bytes a = mem a := by
  unfold writeAt
  by_cases hle : offset ≤ a
  · have hge : bytes.length ≤ a - offset := by
      by_contra hlt
      exact h ⟨hle, by show a < offset + bytes.length; omega⟩
    rw [if_pos hle, List.getD_eq_getElem?_getD, List.getElem?_eq_none hge, Option.getD_none]
  · rw [if_neg hle]

/-- Where no step writes, nothing changes. -/
theorem mem_of_not_writes {c c' : Conf (mpi size) Int} {l : Label (mpi size)}
    (hnext : c.next l = some c') {r a : Nat} (h : ¬ Writes c r a l) :
    World.mem c'.st r a = World.mem c.st r a := by
  cases l with
  | call p hint =>
    obtain ⟨op, k, answer, st', hp, hact, rfl⟩ := Conf.next_call hnext
    obtain ⟨answer', -, heq⟩ := Option.map_eq_some_iff.1 hact
    cases heq
    have hstores : p.val = r → ¬ Stores a op := fun hr hs => h ⟨hr, op, k, hp, hs⟩
    by_cases hr : r = p.val
    · have hno := hstores hr.symm
      cases op with
      | mallocRandom n => exact absurd trivial hno
      | store offset bytes =>
        show Function.update (World.mem c.st) p _ r a = _
        rw [hr, Function.update_self]
        exact writeAt_of_not_contains hno
      | _ => rfl
    · have hother : ∀ (op : MOp), (World.effect c.st hint p op).mem r = World.mem c.st r := by
        intro op
        cases op with
        | mallocRandom n =>
          cases hf : hint.fresh with
          | none => simp [World.effect, hf]
          | some bytes => simp [World.effect, hf, Function.update_of_ne hr]
        | store offset bytes => exact Function.update_of_ne hr _ _
        | _ => rfl
      exact congrFun (hother op) a
  | tick t =>
    obtain ⟨w', ht, rfl⟩ := Conf.next_tick hnext
    change World.tick c.st t = some w' at ht
    cases World.tick_cases ht with
    | pair _ => rfl
    | read _ _ => rfl
    | @deliver s d k x bytes place hx hread _ hplace _ _ =>
      cases place with
      | array n => rfl
      | block b =>
        show Function.update (World.mem c.st) d _ r a = _
        rw [Function.update_apply]
        split
        · rename_i hr
          rw [hr]
          exact writeAt_of_not_contains fun hin => h ⟨hr.symm, x, bytes, b, hx, hread, hplace, hin⟩
        · rfl

/-! ## No blocks at all -/

/-- There is nobody to send to, nothing to send, or a length that `MPI_Isend` refuses. -/
def NoBlocks (params : DccsParameters) (size : Nat) : Prop :=
  size ≤ 1 ∨ params.count = 0 ∨ params.repeat_ = 0 ∨ cInt params.length < 0

variable {params : DccsParameters}

theorem planned_noBlocks (h : size ≤ 1 ∨ params.count = 0 ∨ params.repeat_ = 0) (s d : Nat)
    (b : Range) : Place.block b ∉ planned params size s d := by
  intro hmem
  rcases List.mem_append.1 hmem with hmem | hmem
  · split at hmem
    · rename_i hsd
      obtain ⟨htalks, hs, hd⟩ := hsd
      rcases h with hsize | hcount | hrepeat
      · obtain ⟨rfl, rfl⟩ : s = 0 ∧ d = 0 := by omega
        cases hdir : params.direction <;> rw [hdir] at htalks <;> simp [talks] at htalks
      · obtain ⟨i, hi, -⟩ := mem_rounds hmem
        omega
      · rw [hrepeat, rounds_zero] at hmem
        cases hmem
    · cases hmem
  · split at hmem
    · cases List.mem_singleton.1 hmem
    · cases hmem

/-- Only `MPI_Isend` posts a block. -/
theorem block_of_upd {l : Local} {op : MOp} {a : MOp.Ans op} {d : Nat} {b : Range}
    (h : Place.block b ∈ (l.upd op a).sends d) :
    Place.block b ∈ l.sends d ∨ ∃ offset length dest request,
      op = .isend offset length dest request := by
  cases op with
  | isend offset length dest request => exact .inr ⟨offset, length, dest, request, rfl⟩
  | send data dest =>
    change _ ∈ post l.sends dest _ d at h
    rw [post_apply] at h
    split at h
    · rcases List.mem_append.1 h with h | h
      · exact .inl h
      · cases List.mem_singleton.1 h
    · exact .inl h
  | _ => exact .inl h

/-- The length `MPI_Isend` is given is that of the parameters. -/
def SendsLength (params : DccsParameters) : MOp → Prop
  | .isend _ length _ _ => length = cInt params.length
  | _ => True

theorem safe_runOf_length (sha1sum : List UInt8 → Digest) (testSyncPacket : Bool)
    (params : DccsParameters) {rank : Nat} (hrank : rank < size) :
    Safe history.lenient (fun _ op => SendsLength (paramsOf testSyncPacket params) op)
      (runOf sha1sum testSyncPacket size rank params) {}
      fun _ _ => True := by
  have hquiet : ∀ (l : Local) op, Quiet (paramsOf testSyncPacket params)
      ((size - 1) * (paramsOf testSyncPacket params).count) op →
      SendsLength (paramsOf testSyncPacket params) op := by
    intro l op h
    cases op with
    | isend => exact h.1
    | _ => trivial
  have hrounds : Safe history (fun _ op => SendsLength (paramsOf testSyncPacket params) op)
      (exchange sha1sum size rank (paramsOf testSyncPacket params)) {} fun _ _ => True := by
    refine (safe_rounds hquiet hrank (fun _ _ _ _ => trivial)
      fun _ _ _ _ _ _ _ _ _ _ => trivial).bind fun _ l _ => ?_
    refine ⟨trivial, fun content _ => safe_ite.2 ⟨fun _ => ?_, fun _ => ⟨trivial, fun _ _ => trivial⟩⟩⟩
    have hturns : 1 + (size - 1) = size := by omega
    exact (safe_verifyFrom_collected (sha1sum content) (fun _ _ _ _ _ => trivial)
      (fun _ _ _ _ _ => trivial) (fun _ _ _ _ => trivial)
      (size - 1) 1 _ (Nat.le_refl 1) hturns (.one _)).mono fun _ _ _ => trivial
  exact (safe_runOf (m := history.lenient) sha1sum rfl (fun _ _ => trivial) (fun _ => trivial)
    (fun _ _ => trivial) testSyncPacket size rank params
    (hrounds.relax rfl (fun _ _ _ h => h) (fun h => h.elim) fun _ _ h => h) fun _ _ _ =>
      trivial).mono fun _ _ _ => trivial

theorem not_outstanding (sha1sum : List UInt8 → Digest) (testSyncPacket : Bool)
    (h : NoBlocks (paramsOf testSyncPacket params) size) {mem : Nat → Nat → UInt8}
    {c : Conf (mpi size) Int}
    (hc : Reachable AnyMpiStep
      (launch mem fun rank : Fin size => runOf sha1sum testSyncPacket size rank params) c)
    (r : Nat) (b : Range) :
    ¬ Outstanding c.st r b := by
  suffices hnone : ∀ r d b, Place.block b ∉ (World.loc c.st r).sends d by
    rintro ⟨d, k, hk, -⟩
    exact hnone r d b (List.mem_of_getElem? hk)
  by_cases hlength : cInt (paramsOf testSyncPacket params).length < 0
  · -- `MPI_Isend` refuses the length
    refine (mpi_invariant (I := fun w : World => ∀ r d b, Place.block b ∉ (w.loc r).sends d)
      (m := history.lenient) rfl
      (fun rank hint op a w _ hI hok ha => ⟨history_admits (w.loc rank) op a, fun r d b hb => ?_⟩)
        (fun t w w' _ hI ht => ?_)
      (fun _ _ _ h => nomatch h) (fun rank => safe_runOf_length sha1sum testSyncPacket params rank.isLt) hc).1
    · rw [World.called_loc] at hb
      split at hb
      · rcases block_of_upd hb with hb | ⟨offset, length, dest, request, rfl⟩
        · exact hI _ d b hb
        · obtain rfl : length = _ := hok
          have hvalid := World.valid_of_answer ha
          exact absurd hvalid.1 (Int.not_le.2 hlength)
      · exact hI r d b hb
    · rw [World.tick_loc ht]
      exact hI
  · have hplan : size ≤ 1 ∨ (paramsOf testSyncPacket params).count = 0 ∨
      (paramsOf testSyncPacket params).repeat_ = 0 := by
      rcases h with h | h | h | h
      · exact .inl h
      · exact .inr (.inl h)
      · exact .inr (.inr h)
      · exact absurd h hlength
    have haligned := aligned_reachable sha1sum testSyncPacket size params hc
    intro r d b hb
    by_cases hr : r < size
    · exact planned_noBlocks hplan r d b (((haligned.onPlan r hr).sends d).subset hb)
    · rw [haligned.idle r (by omega)] at hb
      cases hb

/-! ## The direction 1-N -/

section sha1
variable {sha1sum : List UInt8 → Digest} {mem₀ : Nat → UInt8} {w w' : World}

/-- Behind the `free` of rank 0 all its blocks have been read. -/
def Drained (params : DccsParameters) (size : Nat) (w : World) : Prop :=
  w.freed 0 = true → ∀ d, d ≠ 0 → d < size → ∀ k < params.repeat_ * params.count,
    (w.read (0, d, k)).isSome

theorem Drained.present (hdrained : Drained params size w)
    (h : Content sha1sum True params size mem₀ w) (hdir : params.direction = .dirOut) {r : Nat}
    {b : Range} (hout : Outstanding w r b) : w.freed r = false := by
  obtain ⟨d, k, hk, hread⟩ := hout
  obtain ⟨rfl, hd⟩ := h.sender hdir hk
  by_contra hfreed
  have hsize : 0 < size := by
    by_contra hge
    rw [h.aligned.idle 0 (by omega)] at hk
    cases hk
  have hplan := getElem?_mono ((h.aligned.onPlan 0 hsize).sends d) hk
  have hlt : d < size := lt_of_planned (List.mem_of_getElem? hplan)
  have hless := (List.getElem?_eq_some_iff.1 hplan).1
  rw [planned_out hdir, if_pos ⟨rfl, hd, hsize, hlt⟩, if_neg fun h0 => hd h0.1, List.append_nil,
    length_rounds] at hless
  have hsome := hdrained (by simpa using hfreed) d hd hlt k hless
  rw [hread] at hsome
  cases hsome

/-- Rank 0 has heard of everyone: so everyone has received everything. -/
theorem Content.drained (h : Content sha1sum True params size mem₀ w)
    (hdir : params.direction = .dirOut)
    (hheard : ∀ s, 1 ≤ s → s < size → (s, 0) ∈ (w.loc 0).complete) {d k : Nat} (hd : d ≠ 0)
    (hsize : d < size) (hk : k < params.repeat_ * params.count) : (w.read (0, d, k)).isSome := by
  -- its digest has come, so it had loaded its buffer, so it was through
  obtain ⟨digest, hdigest⟩ :=
    Option.isSome_iff_exists.1 (h.complete d 0 0 (hheard d (by omega) hsize))
  obtain ⟨place, hsent, -, hplan⟩ := h.place_eq hdigest
  cases place with
  | block b => exact absurd (planned_block hdir hplan).1 hd
  | array n =>
    obtain ⟨content, hcontent⟩ := Option.isSome_iff_exists.1 (h.arrays d 0 0 n hsent).1
    have hthrough := (h.loaded d content hcontent).1
    obtain ⟨bytes, hbytes⟩ :=
      Option.isSome_iff_exists.1 (h.complete 0 d k (hthrough.complete hd k hk))
    rw [(h.got 0 d k bytes hbytes).2]
    rfl

theorem Drained.called (hdrained : Drained params size w)
    (h : Content sha1sum True params size mem₀ w) (hdir : params.direction = .dirOut)
    (hor : Exact params ∨ size = 2) {hint : Hint} {r : Nat} {op : MOp} {a : MOp.Ans op}
    (hok : Careful sha1sum True params size r (w.loc r) op) :
    Drained params size (w.called hint r op a) := by
  -- a call that frees nothing and forgets no message
  have hkeep : (w.effect hint r op).freed 0 = w.freed 0 ∨ (w.effect hint r op).freed 0 = false →
      (∀ x, (w.read x).isSome → ((w.effect hint r op).read x).isSome) →
        Drained params size (w.called hint r op a) := by
    intro hfreed hread hf d hd hsize k hk
    refine hread _ (hdrained ?_ d hd hsize k hk)
    rcases hfreed with hfreed | hfreed
    · exact hfreed.symm.trans hf
    · cases hfreed.symm.trans hf
  cases op with
  | free =>
    intro hf d hd hsize k hk
    by_cases h0 : r = 0
    · subst h0
      exact h.drained hdir (hok.2 rfl hor) hd hsize hk
    · refine hdrained ?_ d hd hsize k hk
      rw [← hf]
      exact (Function.update_of_ne (Ne.symm h0) _ _).symm
  | mallocRandom n =>
    cases hfresh : hint.fresh with
    | none =>
      refine hkeep (.inl ?_) fun x hx => ?_
      · simp [World.effect, hfresh]
      · simpa [World.effect, hfresh] using hx
    | some bytes =>
      refine hkeep ?_ fun x hx => ?_
      · by_cases h0 : (0 : Nat) = r
        · right
          simp [World.effect, hfresh, ← h0]
        · left
          simp [World.effect, hfresh, Function.update_of_ne h0]
      · simpa [World.effect, hfresh] using hx
  | send data dest =>
    refine hkeep (.inl rfl) fun x hx => ?_
    show (Function.update w.read _ _ x).isSome
    rw [Function.update_apply]
    split
    · rfl
    · exact hx
  | _ => exact hkeep (.inl rfl) fun x hx => hx

theorem Drained.tick (hdrained : Drained params size w) {t : Tick} (ht : w.tick t = some w') :
    Drained params size w' := by
  cases World.tick_cases ht with
  | pair _ => exact hdrained
  | @read s d k seen b _ _ =>
    intro hf d' hd hsize k' hk
    show (Function.update w.read _ _ _).isSome
    rw [Function.update_apply]
    split
    · rfl
    · exact hdrained hf d' hd hsize k' hk
  | @deliver s d k x bytes place _ _ _ _ _ _ =>
    intro hf
    rw [(World.arrive_eq w s d x.2 bytes place).2.2.1]
    refine hdrained ?_
    rw [← hf]
    cases place <;> rfl

theorem broadcast_stable (sha1sum : List UInt8 → Digest) (testSyncPacket : Bool)
    (hdir : params.direction = .dirOut)
    (hpos : 0 < (paramsOf testSyncPacket params).repeat_ * (paramsOf testSyncPacket params).count)
    (hor : Exact (paramsOf testSyncPacket params) ∨ size = 2) {mem : Nat → Nat → UInt8}
    {c : Conf (mpi size) Int}
    (hc : Reachable AnyMpiStep
      (launch mem fun rank : Fin size => runOf sha1sum testSyncPacket size rank params) c) :
    Stable c := by
  have hdir' : (paramsOf testSyncPacket params).direction = .dirOut := by
    cases testSyncPacket <;> exact hdir
  have hcareful : ∀ rank : Fin size,
    Safe (trusting sha1sum (paramsOf testSyncPacket params)).lenient
      (Careful sha1sum True (paramsOf testSyncPacket params) size rank)
        (runOf sha1sum testSyncPacket size rank params) {}
      fun v l => v = 0 ∧ ∃ rv, Ended (paramsOf testSyncPacket params) size rank rv l := by
    intro rank
    refine safe_runOf sha1sum rfl (fun _ _ => trivial) (fun _ => ⟨trivial, rfl⟩)
      (fun _ _ => ⟨trivial, rfl⟩) testSyncPacket size rank params ?_
      fun rv l h => ⟨trivial, h.heard⟩
    exact (safe_exchange_careful sha1sum hdir' rank.isLt).relax rfl (fun _ _ _ h => h)
      (fun h => h.elim) fun _ _ h => h
  have hplanned : ∀ rank : Fin size,
    Safe (trusting sha1sum (paramsOf testSyncPacket params)).lenient
      (fun l op => ∀ a, OnPlan (paramsOf testSyncPacket params) size rank (l.upd op a))
        (runOf sha1sum testSyncPacket size rank params) {}
      fun _ _ => True :=
    fun rank => (safe_runOf_planned sha1sum testSyncPacket params rank.isLt).relax rfl
      (fun l op a _ => history_admits l op a) id fun _ _ h => h
  obtain ⟨⟨hcontent, hdrained⟩, hsafe⟩ := mpi_invariant
    (I := fun w => Content sha1sum True (paramsOf testSyncPacket params) size (mem 0) w ∧
      Drained (paramsOf testSyncPacket params) size w)
    (m := (trusting sha1sum (paramsOf testSyncPacket params)).lenient) rfl
    (fun rank hint op a w _ h hok ha => by
      obtain ⟨hadm, hcontent⟩ := h.1.called hdir' hpos rank.isLt ha hok.1 (hok.2 a)
      exact ⟨hadm, hcontent, h.2.called h.1 hdir' hor hok.1⟩)
    (fun t w w' _ h ht => ⟨h.1.tick hdir' (fun s d k b hplace hread =>
      h.2.present h.1 hdir' ⟨d, k, hplace, hread⟩) ht, h.2.tick ht⟩) ⟨.start sha1sum mem, fun hf => nomatch hf⟩
    (fun rank => (hcareful rank).both (hplanned rank)) hc
  refine ⟨fun r b hout l c' hnext a _ hwrites => ?_,
    fun r b hout => hdrained.present hcontent hdir' hout⟩
  obtain ⟨d, k, hk, -⟩ := hout
  obtain ⟨rfl, -⟩ := hcontent.sender hdir' hk
  have hsize : 0 < size := by
    by_contra hge
    rw [hcontent.aligned.idle 0 (by omega)] at hk
    cases hk
  cases l with
  | call p hint =>
    obtain ⟨hp, op, cont, hprog, hstores⟩ := hwrites
    have hok := hsafe p
    rw [hprog, hp] at hok
    -- before it has sent anything
    have hnone : World.loc c.st 0 = {} := by
      cases op with
      | mallocRandom n => exact hok.1.1.2
      | store offset bytes => exact hok.1.1.2
      | _ => exact hstores.elim
    rw [hnone] at hk
    cases hk
  | tick t =>
    cases t with
    | deliver s d' i =>
      obtain ⟨rfl, x, bytes, b', -, -, hposted, -⟩ := hwrites
      have hplan := ((hcontent.aligned.onPlan 0 hsize).recvs s).subset (List.mem_of_getElem? hposted)
      exact (planned_block hdir' hplan).2 rfl
    | _ => exact hwrites.elim

end sha1

/-! ## All directions -/

/-- A count that `int` holds, or that `MPI_Testall` refuses. -/
def Counted (n : Nat) : Prop := 0 ≤ cInt n → cInt n = n

/-- No block is sent, or rank 0 does not free its buffer before everyone has received everything. -/
def Steady (params : DccsParameters) (size : Nat) : Prop :=
  NoBlocks params size ∨ params.direction = .dirOut ∧ Counted params.count ∧
    (Exact params ∨ size = 2)

theorem stable_of_noBlocks {sha1sum : List UInt8 → Digest} {testSyncPacket : Bool}
    (h : NoBlocks (paramsOf testSyncPacket params) size) :
    BufferStability sha1sum testSyncPacket size params := by
  intro mem c hc
  have hnone := not_outstanding sha1sum testSyncPacket h hc
  exact ⟨fun r b hout => absurd hout (hnone r b), fun r b hout => absurd hout (hnone r b)⟩

end stability

/-- **Buffers are stable** in the direction 1-N. -/
theorem bufferStability_of_steady (sha1sum : List UInt8 → Digest) (testSyncPacket : Bool)
    (size : Nat) (params : DccsParameters) (h : Steady (paramsOf testSyncPacket params) size) :
    BufferStability sha1sum testSyncPacket size params := by
  by_cases hnone : NoBlocks (paramsOf testSyncPacket params) size
  · exact stable_of_noBlocks hnone
  · obtain ⟨hdir, -, hor⟩ := h.resolve_left hnone
    have hpos : 0 < (paramsOf testSyncPacket params).repeat_ * (paramsOf testSyncPacket params).count := by
      refine Nat.mul_pos (Nat.pos_of_ne_zero fun h0 => ?_) (Nat.pos_of_ne_zero fun h0 => ?_)
      · exact hnone (.inr (.inr (.inl h0)))
      · exact hnone (.inr (.inl h0))
    have hdir' : params.direction = .dirOut := by
      cases testSyncPacket <;> exact hdir
    exact fun mem c hc => broadcast_stable sha1sum testSyncPacket hdir' hpos hor hc

/-- The packet of rank 0 to two other ranks. -/
theorem bufferStability_of_steady_three :
    BufferStability (fun _ => Vector.replicate 20 0) true 3 oneSend :=
  bufferStability_of_steady _ true 3 oneSend (.inr ⟨rfl, fun _ => rfl, .inl rfl⟩)

/-- Rank 1 sends its packet and its digest to rank 0, and frees the buffer. -/
def freedUnread : List (Label (mpi 2)) :=
  mcalls ⟨1, Nat.one_lt_two⟩ 4 ++ mcalls ⟨0, Nat.two_pos⟩ 4 ++ mcalls ⟨1, Nat.one_lt_two⟩ 6

theorem bufferStability_counterexample :
    ¬ BufferStability (fun _ => Vector.replicate 20 0) true 2 towardsRank0 := by
  intro h
  have hrun : ((launch (fun _ _ => 0) fun rank : Fin 2 => runOf
    (fun _ => Vector.replicate 20 0) true 2 rank towardsRank0).follow freedUnread).bind (fun c =>
        some (((World.loc c.st 1).sends 0)[0]?, World.read c.st (1, 0, 0), World.freed c.st 1)) =
        some (some (.block ⟨0, 5⟩), none, true) := by
    decide +kernel
  obtain ⟨c, hreach, hseen⟩ := Reachable.of_follow (fun l _ w => (trivial : AnyMpiStep l w)) hrun
  simp only [Option.some.injEq, Prod.mk.injEq] at hseen
  obtain ⟨hsent, hread, hfreed⟩ := hseen
  have hpresent := (h _ c hreach).present 1 ⟨0, 5⟩ ⟨0, 0, hsent, hread⟩
  rw [hfreed] at hpresent
  cases hpresent

end RdmaOpera.MpiExec
