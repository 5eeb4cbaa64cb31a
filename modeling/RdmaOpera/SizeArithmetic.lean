import RdmaOpera.Buffers
import RdmaOpera.ControlMain

/-!
# Divisors and sizes

| here | there |
| --- | --- |
| `bufferDivisions`                           | `allocate_buffer`, `deallocate_buffer` (`dccs_rdma.h:311`, `:318`, `:359`, `:362`) |
| `roundDivisions`                            | the round loop of `control_exec` (`control_main.c:132-133`), on either side |
| `bufferLength`, `requestsSize`, `arraySize` | `dccs_rdma.h:312`, `rdma_main.c:35`, `dccs_rdma.h:387` and `:488` |
-/

namespace RdmaOpera

open Lib Prog

/-! ## Divisions -/

/-- A division or a remainder that is executed. -/
structure Division where
  dividend : Nat
  divisor : Nat

/-- `count / mr_count`, and `n % count_per_mr` in every turn. -/
def bufferDivisions (params : DccsParameters) : List Division :=
  ⟨params.count, params.mrCount⟩ :: (List.range params.count).map fun n => ⟨n, countPerMr params⟩

/-- `n % (params.repeat / 100)`. -/
def roundDivisions (params : DccsParameters) (n : Nat) : List Division :=
  [⟨params.repeat_, 100⟩, ⟨n, params.repeat_ / 100⟩]

def NoZero (divisions : List Division) : Prop := ∀ d ∈ divisions, d.divisor ≠ 0

structure DivisionSafe (params : DccsParameters) : Prop where
  buffers : NoZero (bufferDivisions params)
  rounds : ∀ n < params.repeat_, NoZero (roundDivisions params n)

section
variable {params : DccsParameters}

theorem noZero_roundDivisions {n : Nat} :
    NoZero (roundDivisions params n) ↔ params.repeat_ / 100 ≠ 0 := by
  simp [NoZero, roundDivisions]

/-- A turn of either round loop stops at its division, and only there. -/
theorem controlRound_spin {requestsOut : List DccsRequest} {n : Nat} {s : ControlExec.RoundState}
    (hs : s.broke = false) :
    ControlExec.controlRound requestsOut params n s = .spin ↔
      ¬ NoZero (roundDivisions params n) := by
  rw [noZero_roundDivisions, not_not, ControlExec.controlRound,
    if_neg (by rw [hs]; exact Bool.false_ne_true)]
  split
  · rename_i h0
    exact ⟨fun _ => h0, fun _ => rfl⟩
  · rename_i h0
    exact ⟨fun h => (nomatch h), fun h => absurd h h0⟩

theorem clientRound_spin {n : Nat} {target : UInt64} :
    ControlExec.clientRound params n target = .spin ↔ ¬ NoZero (roundDivisions params n) := by
  rw [noZero_roundDivisions, not_not, ControlExec.clientRound]
  split
  · rename_i h0
    exact ⟨fun _ => h0, fun _ => rfl⟩
  · rename_i h0
    exact ⟨fun h => (nomatch h), fun h => absurd h h0⟩

/-- Any answers at all, but the program may not stop. -/
def running : Monitor Verbs Unit := ⟨fun _ _ _ => (), fun _ _ _ => True, False⟩

theorem safe_dccsRegMr_running (access : Access) (p : Ptr) (len : Nat) :
    Safe running (fun _ _ => True) (dccsRegMr access p len) () fun _ _ => True := by
  refine safe_bind.2 ⟨trivial, fun mr _ => ?_⟩
  cases mr with
  | none => exact ⟨trivial, fun _ _ => trivial⟩
  | some mr => exact trivial

theorem safe_allocateRegion_running (len : Nat) (st : AllocState) :
    Safe running (fun _ _ => True) (allocateRegion params len st) () fun _ _ => True := by
  refine safe_bind.2 ⟨trivial, fun block _ => Safe.bind (R := fun _ _ => True) ?_
    fun _ _ _ => trivial⟩
  unfold allocateMr
  cases params.verb with
  | Send | Read | Write => exact safe_dccsRegMr_running _ _ _
  | None => exact ⟨trivial, fun _ _ => trivial⟩

theorem NoZero.mrCount_ne (h : NoZero (bufferDivisions params)) : params.mrCount ≠ 0 :=
  h _ List.mem_cons_self

theorem NoZero.countPerMr_ne (h : NoZero (bufferDivisions params)) {n : Nat} (hn : n < params.count) :
    countPerMr params ≠ 0 :=
  h ⟨n, countPerMr params⟩ (List.mem_cons_of_mem _ (List.mem_map.2 ⟨n, List.mem_range.2 hn, rfl⟩))

/-- `allocate_buffer` does not stop, whatever the library answers. -/
theorem allocateBuffer_spin (requests : List DccsRequest) (h : NoZero (bufferDivisions params)) :
    ¬ Reach running (allocateBuffer requests params) () .spin () := by
  intro hreach
  suffices hsafe : Safe running (fun _ _ => True) (allocateBuffer requests params) () fun _ _ =>
    True from hsafe.reach hreach
  refine safe_ite.2 ⟨fun h0 => absurd h0 h.mrCount_ne, fun _ => ?_⟩
  refine Safe.bind (safe_forN (fun _ _ _ => True) trivial fun n st _ hn _ => ?_)
    fun _ _ _ => trivial
  refine safe_ite.2 ⟨fun h0 => absurd h0 (h.countPerMr_ne hn),
    fun _ => Safe.bind (R := fun _ _ => True) ?_ fun _ _ _ => trivial⟩
  exact safe_ite.2 ⟨fun _ => safe_allocateRegion_running _ _, fun _ => trivial⟩

/-- Nor does `deallocate_buffer`, if every request has its region. -/
theorem deallocateBuffer_spin {requests : List DccsRequest} (h : NoZero (bufferDivisions params))
    (hmr : ∀ n < params.count, (reqAt requests n).mr ≠ none) :
    ¬ Reach running (deallocateBuffer requests params) () .spin () := by
  intro hreach
  suffices hsafe : Safe running (fun _ _ => True) (deallocateBuffer requests params) () fun _ _ =>
    True from hsafe.reach hreach
  refine safe_ite.2 ⟨fun h0 => absurd h0 h.mrCount_ne,
    fun _ => safe_forN (fun _ _ _ => True) trivial fun n _ _ hn _ => ?_⟩
  refine safe_ite.2 ⟨fun h0 => absurd h0 (h.countPerMr_ne hn),
    fun _ => safe_ite.2 ⟨fun _ => trivial, fun _ => ?_⟩⟩
  cases hm : (reqAt requests n).mr with
  | none => exact absurd hm (hmr n hn)
  | some mr => exact ⟨trivial, fun _ _ => ⟨trivial, fun _ _ => trivial⟩⟩

/-- **Division safety.** -/
theorem divisionSafe_iff (h : Accepted params) : DivisionSafe params ↔ 100 ≤ params.repeat_ := by
  obtain ⟨hcount, -, hmr, -, hrepeat⟩ := h.checked
  constructor
  · intro hsafe
    have h0 := noZero_roundDivisions.1 (hsafe.rounds 0 hrepeat)
    omega
  · intro hrep
    refine ⟨fun d hd => ?_, fun n _ => noZero_roundDivisions.2 (by omega)⟩
    rcases List.mem_cons.1 hd with rfl | hd
    · exact hmr.ne'
    · obtain ⟨n, -, rfl⟩ := List.mem_map.1 hd
      exact h.countPerMr_pos.ne'

theorem divisionSafe_iff_hundred : DivisionSafe { oneSend with repeat_ := 100 } := by
  have haccepted : Accepted { oneSend with repeat_ := 100 } :=
    ⟨{ oneSend with repeat_ := 100 },
      ⟨by decide, by decide, by decide, by decide, by decide, by decide⟩, rfl⟩
  exact (divisionSafe_iff haccepted).2 (by decide)

/-- The default is one round. -/
theorem divisionSafe_counterexample : Accepted oneSend ∧ ¬ DivisionSafe oneSend := by
  refine ⟨accepted_oneSend, fun h => ?_⟩
  exact absurd (noZero_roundDivisions.1 (h.rounds 0 (by decide))) (by decide)

/-! ## Sizes -/

/-- `count * sizeof(struct dccs_request)`. -/
def requestsSize (params : DccsParameters) : Nat := sizeT (params.count * RdmaExec.requestSize)

/-- `count * sizeof(struct dccs_mr_info)`. -/
def arraySize (params : DccsParameters) : Nat := sizeT (params.count * mrInfoSize)

/-- The sizes are the products, and what is used for request `n` ends inside. -/
structure SizesExact (params : DccsParameters) : Prop where
  buffer : bufferLength params = countPerMr params * params.length
  requests : requestsSize params = params.count * RdmaExec.requestSize
  array : arraySize params = params.count * mrInfoSize
  inside : ∀ n < params.count, n % countPerMr params * params.length + params.length ≤
    bufferLength params ∧
    n * RdmaExec.requestSize + RdmaExec.requestSize ≤ requestsSize params ∧
      n * mrInfoSize + mrInfoSize ≤ arraySize params

/-- **Size arithmetic.** -/
theorem sizesExact_iff (h : Accepted params) :
    SizesExact params ↔ params.count < 2 ^ 58 ∧ countPerMr params * params.length < 2 ^ 64 := by
  constructor
  · rintro ⟨hbuffer, hrequests, -, -⟩
    have hlt : params.count * RdmaExec.requestSize < 2 ^ 64 := hrequests ▸ sizeT_lt _
    have hlt' : countPerMr params * params.length < 2 ^ 64 := hbuffer ▸ sizeT_lt _
    rw [RdmaExec.requestSize] at hlt
    exact ⟨by omega, hlt'⟩
  · rintro ⟨hcount, hbuffer⟩
    have hb : bufferLength params = countPerMr params * params.length := sizeT_of_lt hbuffer
    have hr : requestsSize params = params.count * RdmaExec.requestSize :=
      sizeT_of_lt (by rw [RdmaExec.requestSize]; omega)
    have ha : arraySize params = params.count * mrInfoSize :=
      sizeT_of_lt (by rw [mrInfoSize]; omega)
    refine ⟨hb, hr, ha, fun n hn => ?_⟩
    rw [hb, hr, ha, ← Nat.succ_mul, ← Nat.succ_mul, ← Nat.succ_mul]
    have hmod : n % countPerMr params < countPerMr params := Nat.mod_lt n h.countPerMr_pos
    exact ⟨Nat.mul_le_mul_right _ hmod, Nat.mul_le_mul_right _ hn, Nat.mul_le_mul_right _ hn⟩

theorem sizesExact_iff_fourRequests : SizesExact fourRequests :=
  (sizesExact_iff accepted_fourRequests).2 (by decide)

/-- `2 ^ 58` requests of one byte. -/
def hugeCount : DccsParameters := { oneSend with count := 2 ^ 58 }

theorem accepted_hugeCount : Accepted hugeCount :=
  ⟨hugeCount, ⟨by decide, by decide, by decide, by decide, by decide, by decide⟩, rfl⟩

/-- The array of the requests has no room for any of them. -/
theorem sizesExact_counterexample :
    Accepted hugeCount ∧ requestsSize hugeCount = 0 ∧ ¬ SizesExact hugeCount := by
  refine ⟨accepted_hugeCount, by decide, fun h => ?_⟩
  have hsize := h.requests
  revert hsize
  decide

end

end RdmaOpera
