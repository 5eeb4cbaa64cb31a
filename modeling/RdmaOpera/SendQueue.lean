import RdmaOpera.CallKinds
import RdmaOpera.ControlMain
import RdmaOpera.Success

/-!
# Occupancy of the send queue

`dccs_connect` and `dccs_listen` ask for a queue of `MAX_WR` requests (`dccs_rdma.h:55-58`,
`:99-101`). A request occupies its slot until its completion, or that of a later signaled request,
has been polled. The state of the monitor `occupancy` is the list of the occupied slots, oldest
first, each with its signaled bit.
-/

namespace RdmaOpera

open Lib Prog

/-- One completion polled: the slots up to and including the oldest signaled request become free. -/
def freeOne : List Bool → List Bool
  | [] => []
  | true :: slots => slots
  | false :: slots => freeOne slots

def freeSlots : Nat → List Bool → List Bool
  | 0, slots => slots
  | k + 1, slots => freeSlots k (freeOne slots)

def slotsUpd (slots : List Bool) : (op : VOp) → op.Ans → List Bool
  | .postSend wr, (rv : Int) => if rv = 0 then slots ++ [wr.signaled] else slots
  | .pollSend _, (p : Poll) => freeSlots p.wcs.length slots
  | _, _ => slots

/-- Every poll returns successful completions, of signaled requests that occupy a slot. -/
def slotsAdm (slots : List Bool) : (op : VOp) → op.Ans → Prop
  | .pollSend num, (p : Poll) => 0 ≤ p.rv ∧ p.wcs.length ≤ num ∧ p.wcs.length ≤ slots.count true
  | .pollRecv, (p : Poll) => p.wcs.length ≤ 1
  | _, _ => True

def occupancy : Monitor Verbs (List Bool) where
  upd := slotsUpd
  adm := slotsAdm
  spins := True

/-- At every post a slot is free. -/
def SendQueueBounded {α : Type} (p : VProg α) : Prop :=
  ∀ wr k slots, Reach occupancy p [] (.call (.postSend wr) k) slots → slots.length < maxWr

def slotFree (slots : List Bool) : VOp → Prop
  | .postSend _ => slots.length < maxWr
  | _ => True

theorem sendQueueBounded_of_safe {α : Type} {p : VProg α} {Q : α → List Bool → Prop}
    (h : Safe occupancy slotFree p [] Q) : SendQueueBounded p := by
  intro wr k slots hreach
  exact (h.reach hreach).1

theorem quiet_occupancy : Quiet occupancy slotFree := ⟨fun _ _ => trivial, fun _ _ _ => rfl⟩

theorem freeOne_unsignaled {slots : List Bool} (h : ∀ b ∈ slots, b = false) :
    freeOne (slots ++ [true]) = [] := by
  induction slots with
  | nil => rfl
  | cons b slots ih =>
    obtain rfl := h b (by simp)
    exact ih fun c hc => h c (by simp [hc])

theorem freeSlots_replicate (k n : Nat) :
    freeSlots k (List.replicate n true) = List.replicate (n - k) true := by
  induction k generalizing n with
  | zero => rfl
  | succ k ih =>
    cases n with
    | zero => rw [freeSlots]; exact (ih 0).trans (by simp)
    | succ n => rw [freeSlots, List.replicate_succ, freeOne, ih, Nat.add_sub_add_right]

/-! ## Programs that leave the send queue alone -/

def SparesSendQueue : VOp → Prop
  | .postSend _ | .pollSend _ => False
  | _ => True

theorem slotsUpd_spares {slots : List Bool} {op : VOp} (a : op.Ans) (h : SparesSendQueue op) :
    slotsUpd slots op a = slots := by
  cases op <;> first | exact absurd h id | rfl

theorem slotFree_spares {slots : List Bool} {op : VOp} (h : SparesSendQueue op) :
    slotFree slots op := by
  cases op <;> first | exact absurd h id | trivial

/-- Such a program leaves the slots as they are. -/
theorem spares_safe {α : Type} {p : VProg α} (h : Calls SparesSendQueue p) (slots : List Bool) :
    Safe occupancy slotFree p slots fun _ slots' => slots' = slots := by
  refine h.keeps trivial rfl (fun _ _ ho _ => slotFree_spares ho) ?_
  rintro _ op a ho rfl -
  exact slotsUpd_spares a ho

theorem spares_bind {α β : Type} {p : VProg α} {f : α → VProg β} {slots : List Bool}
    {Q : β → List Bool → Prop} (hp : Calls SparesSendQueue p)
    (hf : ∀ a, Safe occupancy slotFree (f a) slots Q) :
    Safe occupancy slotFree (p >>= f) slots Q := by
  refine (spares_safe hp slots).bind fun a slots' hs => ?_
  subst hs
  exact hf a

theorem spares_obtains : Obtains SparesSendQueue :=
  ⟨fun _ => trivial, fun _ => trivial, fun _ => trivial, fun _ _ _ => trivial, fun _ => trivial⟩

theorem spares_releases : Releases SparesSendQueue :=
  ⟨fun _ => trivial, fun _ => trivial, fun _ => trivial⟩

theorem spares_receives : Receives SparesSendQueue := ⟨fun _ => trivial, trivial, fun _ => trivial⟩

theorem spares_manages : Manages SparesSendQueue :=
  ⟨fun _ => trivial, fun _ => trivial, fun _ => trivial⟩

theorem spares_getRemoteMrInfo (o : ByteOrder) (requests : List DccsRequest) (count : Nat) :
    Calls SparesSendQueue (getRemoteMrInfo o requests count) :=
  calls_getRemoteMrInfo spares_obtains spares_receives spares_releases (fun _ _ => trivial) o requests count

/-! ## One message at a time -/

/-- After a poll that waited for the only signaled request, the last one posted, the queue is empty. -/
theorem freeSlots_last {slots : List Bool} (h : ∀ b ∈ slots, b = false) {num : Nat} {poll : Poll}
    (ha : slotsAdm (slots ++ [true]) (.pollSend num) poll) :
    freeSlots poll.wcs.length (slots ++ [true]) = [] := by
  obtain ⟨hrv, -, hle⟩ := ha
  have hcount : (slots ++ [true]).count true = 1 := by
    rw [List.count_append, List.count_eq_zero.2 fun ht => absurd (h true ht) (by decide)]
    rfl
  cases poll with
  | failed => exact absurd hrv (by decide)
  | got wc rest =>
    have hlen : (Poll.got wc rest).wcs.length = 1 := by
      simp only [Poll.wcs, List.length_cons] at hle ⊢
      omega
    rw [hlen]
    exact freeOne_unsignaled h

/-- A poll cannot come back when no signaled request is outstanding. -/
theorem not_slotsAdm_of_unsignaled {slots : List Bool} (h : ∀ b ∈ slots, b = false) {num : Nat}
    {poll : Poll} :
    ¬ slotsAdm slots (.pollSend num) poll := by
  rintro ⟨hrv, -, hle⟩
  rw [List.count_eq_zero.2 fun ht => absurd (h true ht) (by decide)] at hle
  cases poll with
  | failed => exact absurd hrv (by decide)
  | got wc rest => simp [Poll.wcs] at hle

/-- A signaled request posted on an empty queue, and waited for. -/
theorem slots_sendStep {p : Ptr} {len : Nat} {mr : Option Mr} {e₁ e₂ : String} :
    Safe occupancy slotFree (sendStep p len mr e₁ e₂) [] fun _ slots => slots = [] := by
  refine quiet_occupancy.sendStep (show 0 < maxWr by decide) (fun rv hrv _ => if_neg hrv)
    fun _ => ⟨trivial, ?_⟩
  intro poll ha
  have hnil : ∀ b ∈ ([] : List Bool), b = false := by simp
  exact freeSlots_last hnil ha

theorem slots_sendLocalMrInfo (o : ByteOrder) (requests : List DccsRequest) (count : Nat) :
    Safe occupancy slotFree (sendLocalMrInfo o requests count) [] fun _ slots => slots = [] := by
  refine safe_ite.2 ⟨fun _ => trivial, fun _ => ?_⟩
  cases localMrInfos o requests count with
  | none => trivial
  | some bytes =>
    refine spares_bind ⟨trivial, fun _ => trivial⟩ fun mrInfos => ?_
    cases mrInfos with
    | none => trivial
    | some mrInfos =>
      refine spares_bind ⟨trivial, fun _ => trivial⟩ fun countVar =>
        spares_bind spares_obtains.dccsRegMr fun mrCount => ?_
      cases mrCount with
      | none => exact spares_safe (spares_releases.outFreeBuf _ _ _) _
      | some mrCount =>
        refine spares_bind spares_obtains.dccsRegMr fun mrArray => ?_
        cases mrArray with
        | none => exact spares_safe (spares_releases.outDeregMrCount _ _ _ _) _
        | some mrArray =>
          refine slots_sendStep.bind fun r slots hs => ?_
          subst hs
          refine safe_ite.2 ⟨fun _ => spares_safe (spares_releases.failure _ _ _ _ _) _, fun _ => ?_⟩
          refine slots_sendStep.bind fun r slots hs => ?_
          subst hs
          exact spares_safe (spares_releases.failure _ _ _ _ _) _

theorem slots_sendMessage (buf : Ptr) (length : Nat) :
    Safe occupancy slotFree (sendMessage buf length) [] fun _ slots => slots = [] := by
  refine spares_bind spares_obtains.dccsRegMr fun mr => ?_
  cases mr with
  | none => exact (rfl : ([] : List Bool) = [])
  | some mr =>
    refine slots_sendStep.bind fun r slots hs => ?_
    subst hs
    exact spares_bind (spares_releases.dccsDeregMr _) fun _ => (rfl : ([] : List Bool) = [])

/-! ## `send_and_wait_requests` -/

/-- Before turn `n`: nothing is left behind once requests are signaled, and before that at most `n`
unsignaled requests. -/
structure RoundSlots (params : DccsParameters) (n : Nat) (s : SendState) (slots : List Bool) :
    Prop where
  latency : params.mode = .latency → s.signaled = true
  empty : s.signaled = true → slots = []
  unsignaled : ∀ b ∈ slots, b = false
  length : slots.length ≤ n

theorem RoundSlots.lt {params : DccsParameters} {n : Nat} {s : SendState} {slots : List Bool}
    (h : RoundSlots params n s slots) (hn : n < params.count)
    (hfit : params.mode = .latency ∨ params.count ≤ maxWr) : slots.length < maxWr := by
  rcases hfit with hm | hc
  · rw [h.empty (h.latency hm)]
    decide
  · have := h.length
    omega

/-- The post of turn `n`: at most one slot more, signaled as the turn is. -/
theorem slots_postRequest {request : DccsRequest} {signaled : Bool} {slots : List Bool}
    (hfree : slots.length < maxWr) :
    Safe occupancy slotFree (postRequest request signaled) slots fun _ slots' =>
      slots' = slots ∨ slots' = slots ++ [signaled] := by
  unfold postRequest
  cases hwr : requestWr request signaled with
  | none => exact .inl rfl
  | some wr =>
    have hsig : wr.signaled = signaled := by
      unfold requestWr at hwr
      split at hwr <;> cases hwr <;> rfl
    refine quiet_occupancy.dccsRdmaPost hfree fun rv _ => ?_
    by_cases hrv : rv = 0
    · exact .inr (by simp [occupancy, slotsUpd, hrv, hsig])
    · exact .inl (by simp [occupancy, slotsUpd, hrv])

theorem slots_sendAndWaitOne {params : DccsParameters} {n : Nat} {s : SendState} {slots : List Bool}
    (hn : n < params.count) (hfit : params.mode = .latency ∨ params.count ≤ maxWr)
    (h : RoundSlots params n s slots) :
    Safe occupancy slotFree (sendAndWaitOne params.count n s) slots fun s' slots' =>
      RoundSlots params (n + 1) s' slots' ∧ (n + 1 = params.count → slots' = []) := by
  simp only [sendAndWaitOne]
  refine (slots_postRequest (h.lt hn hfit)).bind fun rv slots' hs' => ?_
  refine spares_bind ⟨trivial, fun _ => trivial⟩ fun start => ?_
  cases hsig : if n = params.count - 1 then true else s.signaled with
  | false =>
    have hne : n ≠ params.count - 1 := fun hlast => by rw [if_pos hlast] at hsig; cases hsig
    rw [if_neg hne] at hsig
    refine safe_ite.2 ⟨fun hf => absurd hf Bool.false_ne_true,
      fun _ => ⟨⟨?_, ?_, ?_, ?_⟩, fun hlast => ?_⟩⟩
    · intro hm; rw [h.latency hm] at hsig; cases hsig
    · intro hf; cases hf
    · rcases hs' with rfl | rfl
      · exact h.unsignaled
      · simpa [hne, hsig] using h.unsignaled
    · have := h.length
      rcases hs' with rfl | rfl
      · omega
      · simpa using this
    · omega
  | true =>
    refine safe_ite.2 ⟨fun _ => ?_, fun hf => absurd rfl hf⟩
    refine Safe.bind (R := fun _ slots => slots = []) (quiet_occupancy.dccsRdmaSendComp_one trivial
      fun poll ha => ?_)
      fun rv slots'' hs'' => ?_
    · -- a refused post leaves nothing to wait for
      rcases hs' with rfl | rfl
      · exact absurd ha (not_slotsAdm_of_unsignaled h.unsignaled)
      · rw [hsig] at ha ⊢
        exact freeSlots_last h.unsignaled ha
    · subst hs''
      refine spares_bind ⟨trivial, fun _ => trivial⟩ fun end_ =>
        ⟨⟨?_, ?_, ?_, ?_⟩, fun _ => rfl⟩ <;> simp

theorem slots_clientRound {params : DccsParameters} {n : Nat} {requests : List DccsRequest}
    (hfit : params.mode = .latency ∨ params.count ≤ maxWr) :
    Safe occupancy slotFree (RdmaExec.clientRound params n requests) [] fun _ slots =>
      slots = [] := by
  refine Safe.bind (R := fun _ slots => slots = []) ?_ fun r slots hs => ?_
  · refine spares_bind ⟨trivial, fun _ => trivial⟩ fun _ => ?_
    refine Safe.bind (safe_forN (fun n s slots =>
        RoundSlots params n s slots ∧ (n = params.count → slots = [])) ⟨⟨?_, ?_, ?_, ?_⟩, ?_⟩
      fun n s slots hn hs => slots_sendAndWaitOne hn hfit hs.1) fun s slots hs => ?_
    · intro hm; simp [hm]
    · simp
    · simp
    · simp
    · intro h0; rfl
    · exact spares_bind ⟨trivial, fun _ => trivial⟩ fun _ => hs.2 rfl
  · subst hs
    refine safe_ite.2 ⟨fun _ => spares_bind ⟨trivial, fun _ => trivial⟩ fun _ => ?_, fun _ => ?_⟩
    · exact spares_bind ⟨trivial, fun _ => trivial⟩ fun _ => (rfl : ([] : List Bool) = [])
    · exact spares_bind ⟨trivial, fun _ => trivial⟩ fun _ => (rfl : ([] : List Bool) = [])

/-! ## `rdma_exec` -/

section rdma
open RdmaExec

theorem slots_exchangeMrInfo (o : ByteOrder) (requests : List DccsRequest) (params : DccsParameters) :
    Safe occupancy slotFree (RdmaExec.exchangeMrInfo o requests params) [] fun _ slots =>
      slots = [] := by
  refine safe_ite.2 ⟨fun _ => ?_, fun _ => (rfl : ([] : List Bool) = [])⟩
  cases roleOf params with
  | client =>
    refine spares_bind (spares_getRemoteMrInfo _ _ _) fun r =>
      safe_ite.2 ⟨fun _ => ?_, fun _ => rfl⟩
    exact spares_bind ⟨trivial, fun _ => trivial⟩ fun _ => (rfl : ([] : List Bool) = [])
  | server =>
    refine (slots_sendLocalMrInfo o requests params.count).bind fun rv slots hs => ?_
    subst hs
    refine safe_ite.2 ⟨fun _ => ?_, fun _ => rfl⟩
    exact spares_bind ⟨trivial, fun _ => trivial⟩ fun _ => (rfl : ([] : List Bool) = [])

theorem slots_rounds {params : DccsParameters} {requests : List DccsRequest}
    (hfit : roleOf params = .server ∨ params.mode = .latency ∨ params.count ≤ maxWr) :
    Safe occupancy slotFree (rounds requests params) [] fun _ slots => slots = [] := by
  unfold rounds
  cases hrole : roleOf params with
  | client =>
    have hfit' := hfit.resolve_left (by simp [hrole])
    refine safe_forN (fun _ _ slots => slots = []) rfl fun n requests slots _ hs => ?_
    subst hs
    exact slots_clientRound hfit'
  | server => exact spares_safe (calls_forN (spares_receives.serverRound params) _ _) _

theorem slots_endMessage (params : DccsParameters) :
    Safe occupancy slotFree (endMessage params) [] fun _ slots => slots = [] := by
  unfold endMessage
  cases roleOf params with
  | client =>
    refine spares_bind ⟨trivial, fun _ => trivial⟩ fun buf => (slots_sendMessage _ _).bind
      fun rv slots hs => ?_
    subst hs
    refine safe_ite.2 ⟨fun _ => spares_bind ⟨trivial, fun _ => trivial⟩ fun _ => ?_, fun _ => ?_⟩
    · exact spares_bind ⟨trivial, fun _ => trivial⟩ fun _ => (rfl : ([] : List Bool) = [])
    · exact spares_bind ⟨trivial, fun _ => trivial⟩ fun _ => (rfl : ([] : List Bool) = [])
  | server =>
    refine spares_bind ⟨trivial, fun _ => trivial⟩ fun buf =>
      spares_bind (calls_recvMessage spares_obtains spares_receives spares_releases _ _) fun rv => ?_
    refine safe_ite.2 ⟨fun _ => spares_bind ⟨trivial, fun _ => trivial⟩ fun _ => ?_, fun _ => ?_⟩
    · exact spares_bind ⟨trivial, fun _ => trivial⟩ fun _ => (rfl : ([] : List Bool) = [])
    · exact spares_bind ⟨trivial, fun _ => trivial⟩ fun _ => (rfl : ([] : List Bool) = [])

/-- A run whose rounds fit the queue leaves it empty; one whose request array does not fit in memory
does not get as far. -/
theorem slots_run (o : ByteOrder) {params : DccsParameters}
    (hfit : 2 ^ 64 ≤ params.count * requestSize ∨
      roleOf params = .server ∨ params.mode = .latency ∨ params.count ≤ maxWr) :
    Safe occupancy slotFree (run o params) [] fun _ slots => slots = [] := by
  refine Safe.bind (R := fun _ slots => slots = []) ?_ fun exit slots hs =>
    hs ▸ spares_safe (calls_finish spares_manages spares_releases (fun _ _ => trivial)
    (fun _ _ _ => trivial) _ _) _
  refine spares_bind (spares_manages.connect params) fun rv =>
    safe_ite.2 ⟨fun _ => rfl, fun _ => ?_⟩
  refine safe_ite.2 ⟨fun _ => trivial,
    fun hsize => spares_bind (spares_obtains.allocateBuffer _ _) fun r => ?_⟩
  have hfit' := hfit.resolve_left fun hbig => by
    have := Nat.mod_lt (params.count * requestSize) (show 0 < 2 ^ 64 by decide)
    simp only [sizeT] at hsize
    omega
  refine safe_ite.2 ⟨fun _ => spares_bind ⟨trivial, fun _ => trivial⟩ fun _ => rfl, fun _ => ?_⟩
  refine (slots_exchangeMrInfo o r.2 params).bind fun r slots hs => ?_
  subst hs
  refine safe_ite.2 ⟨fun _ => rfl, fun _ => (slots_rounds hfit').bind fun requests slots hs => ?_⟩
  subst hs
  refine (slots_endMessage params).bind fun rv slots hs => ?_
  subst hs
  exact safe_ite.2 ⟨fun _ => rfl, fun _ => rfl⟩

end rdma

/-! ## `control_exec` -/

section control
open ControlExec

/-- Before turn `i` of the inner loop: the slots of the turns so far, all signaled, unless a post
failed and the loop was left. -/
def Posted (i : Nat) (failed : Bool) (slots : List Bool) : Prop :=
  ∃ k, slots = List.replicate k true ∧ k ≤ i ∧ (failed = true → k < i)

theorem slots_postOne {requestsOut : List DccsRequest} {n i : Nat} {s : RoundState × Bool}
    {slots : List Bool} (hi : i < maxWr) (h : Posted i s.2 slots) :
    Safe occupancy slotFree (postOne requestsOut n i s) slots fun s' slots' =>
      Posted (i + 1) s'.2 slots' := by
  obtain ⟨k, rfl, hk, hfail⟩ := h
  refine safe_ite.2 ⟨fun hs => ⟨k, rfl, by omega, fun _ => by omega⟩, fun hs => ?_⟩
  refine spares_bind ⟨trivial, fun _ => trivial⟩ fun now => ?_
  have hfree : (List.replicate k true).length < maxWr := by simp; omega
  refine Safe.bind (R := fun rv slots => slots = List.replicate (if rv = 0 then k + 1 else k) true)
    (quiet_occupancy.dccsRdmaPost hfree fun rv _ => ?_) fun rv slots hs' => ?_
  · by_cases hrv : rv = 0
    · simp [occupancy, slotsUpd, hrv, List.replicate_succ']
    · simp [occupancy, slotsUpd, hrv]
  · subst hs'
    refine safe_ite.2 ⟨fun hrv => spares_bind ⟨trivial, fun _ => trivial⟩ fun _ => ?_, fun hrv => ?_⟩
    · rw [if_neg hrv]
      exact ⟨k, rfl, by omega, fun _ => by omega⟩
    · rw [if_pos (not_not.1 hrv)]
      exact ⟨k + 1, rfl, by omega, fun hf => by cases hf⟩

theorem toInt32_of_le {n : Nat} (h : n ≤ maxWr) : toInt32 n = n :=
  toInt32_of_lt (by simp only [maxWr] at h; omega)

/-- Waiting for `count` completions takes all that was posted, and never ends if that is less. -/
theorem slots_sendComp {count k : Nat} (hk : k ≤ count) :
    Safe occupancy slotFree (whileZero (dccsRdmaSendComp count)) (List.replicate k true)
      fun rv slots =>
      0 ≤ rv → slots = [] := by
  refine quiet_occupancy.whileSendComp trivial (fun wcArr slots => ∃ k,
    slots = List.replicate k true ∧ k + wcArr.length ≤ count)
    (fun wcArr slots _ hI => ⟨trivial, fun p hp => ?_⟩) (fun wcArr slots hge _ hI _ => ?_) ⟨k, rfl, hk⟩
  · obtain ⟨k, rfl, hk⟩ := hI
    obtain ⟨-, -, hle⟩ := hp
    rw [List.count_replicate_self] at hle
    split
    · refine ⟨k - p.wcs.length, freeSlots_replicate _ _, ?_⟩
      rw [List.length_append]
      omega
    · exact fun (hneg : (0 : Int) ≤ -1) => by omega
  · obtain ⟨k, rfl, hk⟩ := hI
    obtain rfl : k = 0 := by omega
    rfl

theorem slots_controlRound {requestsOut : List DccsRequest} {params : DccsParameters} {n : Nat}
    {s : RoundState} {slots : List Bool} (hfit : params.count ≤ maxWr ∨ params.repeat_ < 100)
    (h : s.broke = false → slots = []) :
    Safe occupancy slotFree (controlRound requestsOut params n s) slots fun s' slots' =>
      s'.broke = false → slots' = [] := by
  refine safe_ite.2 ⟨fun hb => fun hb' => absurd (hb.symm.trans hb') (by decide), fun hb => ?_⟩
  obtain rfl := h (by simpa using hb)
  refine safe_ite.2 ⟨fun _ => trivial,
    fun hrep => spares_bind ⟨trivial, fun _ => trivial⟩ fun _ => ?_⟩
  have hfit : params.count ≤ maxWr := hfit.resolve_right fun _ => by omega
  refine Safe.bind (safe_forN (fun i (s : RoundState × Bool) slots => Posted i s.2 slots)
    ⟨0, rfl, Nat.le_refl 0, fun hf => by cases hf⟩ fun i s slots hi hs =>
      slots_postOne (by omega) hs)
    fun r slots hr => ?_
  obtain ⟨k, rfl, hk, -⟩ := hr
  rw [toInt32_of_le hfit]
  refine (slots_sendComp hk).bind fun rv slots hs => safe_ite.2 ⟨fun _ => ?_, fun hrv => ?_⟩
  · exact spares_bind ⟨trivial, fun _ => trivial⟩ fun _ => fun (hf : true = false) => by cases hf
  · obtain rfl := hs (by omega)
    exact spares_bind ⟨trivial, fun _ => trivial⟩ fun _ => fun _ => rfl

/-- A server whose rounds fit the queue; with fewer than 100 of them the progress message divides by
0. -/
theorem slots_serverRounds {requestsOut : List DccsRequest} {params : DccsParameters}
    (hfit : params.count ≤ maxWr ∨ params.repeat_ < 100) :
    Safe occupancy slotFree (serverRounds requestsOut params) [] fun s slots => s.broke = false →
      slots = [] := by
  refine spares_bind ⟨trivial, fun _ => trivial⟩ fun target => ?_
  exact safe_forN (fun _ (s : RoundState) slots => s.broke = false → slots = []) (fun _ => rfl)
    fun n s slots _ hs => slots_controlRound hfit hs

end control

/-! ## Filling the queue -/

/-- Runs in which every call succeeds. -/
def luckySlots (o : ByteOrder) (count : Nat) : Monitor Verbs (List Bool) where
  upd := slotsUpd
  adm slots op a := RdmaExec.Plain o count ⟨op, a⟩ ∧ slotsAdm slots op a
  spins := False

/-- A post that finds the queue full. -/
def Overfull (op : VOp) (slots : List Bool) : Prop :=
  (∃ wr, op = .postSend wr) ∧ maxWr ≤ slots.length

theorem Overfull.not_bounded {α : Type} {o : ByteOrder} {count : Nat} {p : VProg α}
    (h : Hits (luckySlots o count) p [] Overfull) : ¬ SendQueueBounded p := by
  obtain ⟨op, k, slots, hreach, ⟨wr, rfl⟩, hfull⟩ := h
  intro hb
  have hadm : ∀ s op a, (luckySlots o count).adm s op a → occupancy.adm s op a :=
    fun _ _ _ ha => ha.2
  have hupd : occupancy.upd = (luckySlots o count).upd := rfl
  have := hb wr k slots (hreach.mono hupd hadm)
  omega

section filling
open RdmaExec
variable {o : ByteOrder} {params : DccsParameters}

theorem lucky_luckySlots (count : Nat) : Lucky o count (luckySlots o count) := fun _ _ _ h => h.1

def PlainPost (slots : List Bool) (op : VOp) : Prop := NoError slots op ∧ ∀ num, op ≠ .pollSend num

theorem luckySlots_answers {count : Nat} (slots : List Bool) (op : VOp) (h : PlainPost slots op) :
    ∃ a, (luckySlots o count).adm slots op a := by
  obtain ⟨a, ha⟩ := exists_plain o count op h.1
  refine ⟨a, ha, ?_⟩
  cases op with
  | pollSend num => exact absurd rfl (h.2 num)
  | pollRecv =>
    obtain rfl : a = .got .good [] := ha.2
    exact Nat.le_refl 1
  | _ => trivial

/-- A program that spares the send queue and surely gets to its end, then one that fills the queue. -/
theorem hits_after {α β : Type} {p : VProg α} {f : α → VProg β} {Q : α → Prop} {slots : List Bool}
    (hp : Ends (luckySlots o params.count) p slots Q) (hc : Calls SparesSendQueue p)
    (hf : ∀ a, Q a → Hits (luckySlots o params.count) (f a) slots Overfull) :
    Hits (luckySlots o params.count) (p >>= f) slots Overfull := by
  have hsafe : Safe (luckySlots o params.count) PlainPost p slots fun a t => Q a ∧ t = slots :=
    hc.safe hp rfl (fun _ op ho _ hok => ⟨hok, fun num e => by subst e; exact ho⟩)
      (fun _ _ a ho e _ => e ▸ slotsUpd_spares a ho)
  refine hsafe.hits (fun hf => hf) luckySlots_answers fun a slots' h => ?_
  obtain ⟨hQ, rfl⟩ := h
  exact hf a hQ

/-- The first turns of a throughput round only post. -/
theorem fill_sendAndWaitOne {count n : Nat} {s : SendState} {slots : List Bool} (hn : n ≠ count - 1)
    (hr : Prepared params.count params.count s.requests) (hlt : n < params.count)
    (hsig : s.signaled = false) (hlen : slots.length = n) :
    Safe (luckySlots o params.count) PlainPost (sendAndWaitOne count n s) slots fun s' slots' =>
      Prepared params.count params.count s'.requests ∧ s'.signaled = false ∧
      slots'.length = n + 1 := by
  obtain ⟨wr, hwr⟩ : ∃ wr, requestWr (reqAt s.requests n) false = some wr := by
    have hverb := (hr.2 n hlt).2
    unfold requestWr
    cases hv : (reqAt s.requests n).verb with
    | None => exact absurd hv hverb
    | Send | Read | Write => exact ⟨_, rfl⟩
  simp only [sendAndWaitOne, if_neg hn, hsig, postRequest, hwr]
  refine Safe.bind (R := fun rv slots' => slots'.length = n + 1) ?_ fun rv slots' hs' => ?_
  · refine safe_bind.2 ⟨⟨not_false, fun num e => by cases e⟩, fun rv ha => ?_⟩
    obtain rfl : rv = 0 := ha.1.1
    show (slots ++ [wr.signaled]).length = n + 1
    simp [hlen]
  · refine safe_bind.2 ⟨⟨not_false, fun num e => by cases e⟩, fun start _ => ?_⟩
    exact safe_ite.2 ⟨fun hf => absurd hf Bool.false_ne_true,
      fun _ => ⟨hr.update rfl rfl, rfl, hs'⟩⟩

theorem hits_sendAndWaitOne {count : Nat} {s : SendState} {slots : List Bool} {n : Nat}
    (hr : Prepared params.count params.count s.requests) (hlt : n < params.count)
    (hlen : maxWr ≤ slots.length) :
    Hits (luckySlots o params.count) (sendAndWaitOne count n s) slots Overfull := by
  have hverb := (hr.2 n hlt).2
  simp only [sendAndWaitOne]
  refine Hits.bind ?_ _
  generalize (if n = count - 1 then true else s.signaled) = signaled
  obtain ⟨wr, hwr⟩ : ∃ wr, requestWr (reqAt s.requests n) signaled = some wr := by
    unfold requestWr
    cases hv : (reqAt s.requests n).verb with
    | None => exact absurd hv hverb
    | Send | Read | Write => exact ⟨_, rfl⟩
  rw [postRequest, hwr]
  exact .here ⟨⟨wr, rfl⟩, hlen⟩

/-- In throughput mode the first round of a client with more requests than slots fills the queue. -/
theorem hits_clientRound {n : Nat} {requests : List DccsRequest} (hmode : params.mode = .throughput)
    (hbig : maxWr < params.count) (hr : Prepared params.count params.count requests) :
    Hits (luckySlots o params.count) (clientRound params n requests) [] Overfull := by
  obtain ⟨k, hk⟩ : ∃ k, params.count = maxWr + (k + 1) := ⟨params.count - maxWr - 1, by omega⟩
  refine Hits.bind ?_ _
  refine hits_after (Q := fun _ => True) ⟨not_false, fun _ _ => trivial⟩ ⟨trivial,
    fun _ => trivial⟩ fun _ _ => ?_
  refine Hits.bind ?_ _
  simp only [hmode, forN]
  conv => arg 2; rw [hk]
  rw [loopFrom_add]
  refine Safe.hits (safe_loopFrom (fun n s slots =>
      Prepared params.count params.count s.requests ∧ s.signaled = false ∧
        slots.length = n) maxWr 0 _ _
    ⟨hr, rfl, rfl⟩ fun n s slots _ hn hs => ?_) (fun hf => hf) luckySlots_answers
      fun s slots hs => ?_
  · exact fill_sendAndWaitOne (by omega) hs.1 (by omega) hs.2.1 hs.2.2
  · exact Hits.bind (hits_sendAndWaitOne hs.1 (by omega) (by omega)) _

theorem hits_run (h : Accepted params) (hc : params.count * requestSize < 2 ^ 64)
    (hrole : roleOf params = .client) (hmode : params.mode = .throughput)
    (hbig : maxWr < params.count) :
    Hits (luckySlots o params.count) (run o params) [] Overfull := by
  have hm := lucky_luckySlots (o := o) params.count
  refine Hits.bind ?_ _
  refine hits_after hm.connect (spares_manages.connect params) fun rv hrv => ?_
  rw [if_neg (not_not.2 hrv), if_neg (not_not.2 (sizeT_of_lt hc))]
  refine hits_after (hm.allocateBuffer h) (spares_obtains.allocateBuffer _ _) ?_
  rintro ⟨rv, requests⟩ ⟨hrv, hr⟩
  show Hits _ (if rv ≠ 0 then _ else _) _ _
  rw [if_neg (not_not.2 hrv)]
  refine hits_after (hm.exchangeMrInfo hc hr) ?_ ?_
  · refine .ite ?_ trivial
    rw [hrole]
    exact (spares_getRemoteMrInfo _ _ _).bind fun _ =>
      .ite (.bind ⟨trivial, fun _ => trivial⟩ fun _ => trivial) trivial
  · rintro ⟨rv, requests⟩ ⟨hrv, hr⟩
    show Hits _ (if rv < 0 then _ else _) _ _
    rw [if_neg (Int.not_lt.2 hrv)]
    refine Hits.bind ?_ _
    obtain ⟨rep, hrep⟩ : ∃ rep, params.repeat_ = rep + 1 :=
      ⟨params.repeat_ - 1, by have := h.checked; omega⟩
    simp only [rounds, hrole, hrep, forN, loopFrom]
    exact Hits.bind (hits_clientRound hmode hbig hr) _

open ControlExec in
theorem hits_serverRounds {requestsOut : List DccsRequest} (hrep : 100 ≤ params.repeat_)
    (hbig : maxWr < params.count) :
    Hits (luckySlots o params.count) (serverRounds requestsOut params) [] Overfull := by
  obtain ⟨k, hk⟩ : ∃ k, params.count = maxWr + (k + 1) := ⟨params.count - maxWr - 1, by omega⟩
  obtain ⟨rep, hrep'⟩ : ∃ rep, params.repeat_ = rep + 1 := ⟨params.repeat_ - 1, by omega⟩
  have hstep : ∀ {α : Type} {op : VOp} {f : op.Ans → VProg α} {slots : List Bool},
    NoError slots op →
      SparesSendQueue op → (∀ a, Hits (luckySlots o params.count) (f a) slots Overfull) →
      Hits (luckySlots o params.count) (Prog.op (S := Verbs) op >>= f) slots Overfull :=
    fun hne hsp hf => hits_after (Q := fun _ => True) ⟨hne, fun _ _ => trivial⟩ ⟨hsp,
      fun _ => trivial⟩ fun a _ => hf a
  refine hstep not_false trivial fun target => ?_
  rw [hrep']
  refine Hits.bind ?_ _
  simp only [controlRound]
  rw [if_neg (by simp), if_neg (by omega)]
  refine hstep not_false trivial fun _ => ?_
  refine Hits.bind ?_ _
  rw [forN]
  conv => arg 2; rw [hk]
  rw [loopFrom_add]
  refine Safe.hits (safe_loopFrom (fun i (s : RoundState × Bool) slots => s.2 = false ∧
    slots.length = i) maxWr 0 _ _
    ⟨rfl, rfl⟩ fun i s slots _ hi hs => ?_) (fun hf => hf) luckySlots_answers fun s slots hs => ?_
  · obtain ⟨hs, hlen⟩ := hs
    simp only [postOne]
    rw [if_neg (by simp [hs])]
    refine safe_bind.2 ⟨⟨not_false, fun num e => by cases e⟩, fun now _ => ?_⟩
    refine Safe.bind (R := fun rv slots' => rv = 0 ∧ slots'.length = i + 1) ?_
      fun rv slots' hs' => ?_
    · refine safe_bind.2 ⟨⟨not_false, fun num e => by cases e⟩, fun rv ha => ?_⟩
      obtain rfl : rv = 0 := ha.1.1
      refine ⟨rfl, ?_⟩
      show (slots ++ [true]).length = i + 1
      simp [hlen]
    · obtain ⟨rfl, hlen'⟩ := hs'
      exact ⟨rfl, hlen'⟩
  · obtain ⟨hs, hlen⟩ := hs
    refine Hits.bind ?_ _
    simp only [postOne]
    rw [if_neg (by simp [hs])]
    refine hstep not_false trivial fun now => ?_
    exact Hits.bind (.here ⟨⟨_, rfl⟩, by omega⟩) _

end filling

/-! ## The bound -/

/-- **Send-queue bound.** It holds in a run of `rdma_exec` if and only if the requests of a round
are signaled one by one, or fit the queue together; in the round loop of `control_exec` if and only
if they fit (a loop of fewer than 100 rounds crashes before its first post). -/
theorem sendQueueBounded_iff (o : ByteOrder) {params : DccsParameters} (h : Accepted params)
    (requestsOut : List DccsRequest) :
    (SendQueueBounded (RdmaExec.run o params) ↔ 2 ^ 64 ≤ params.count * RdmaExec.requestSize ∨
      RdmaExec.roleOf params = .server ∨ params.mode = .latency ∨ params.count ≤ maxWr) ∧
    (SendQueueBounded (ControlExec.serverRounds requestsOut params) ↔
      params.count ≤ maxWr ∨ params.repeat_ < 100) := by
  refine ⟨⟨fun hb => ?_, fun hfit => sendQueueBounded_of_safe (slots_run o hfit)⟩,
    fun hb => ?_, fun hfit => sendQueueBounded_of_safe (slots_serverRounds hfit)⟩
  · by_contra hnot
    simp only [not_or] at hnot
    obtain ⟨hsize, hrole, hmode, hbig⟩ := hnot
    have hrole : RdmaExec.roleOf params = .client := by
      cases hr : RdmaExec.roleOf params <;> simp_all
    have hmode : params.mode = .throughput := by
      cases hm : params.mode <;> simp_all
    exact Overfull.not_bounded (hits_run (o := o) h (by omega) hrole hmode (by omega)) hb
  · by_contra hnot
    simp only [not_or] at hnot
    exact Overfull.not_bounded (hits_serverRounds (o := o) (by omega) (by omega)) hb

/-- As many requests as the queue holds, in ten regions; only the last one is signaled. -/
def fullQueue : DccsParameters :=
  { oneSend with mode := .throughput, count := 1000, length := 3, repeat_ := 200, mrCount := 10 }

theorem accepted_fullQueue : Accepted fullQueue :=
  ⟨fullQueue, ⟨by decide, by decide, by decide, by decide, by decide, by decide⟩, rfl⟩

theorem sendQueueBounded_iff_fullQueue :
    SendQueueBounded (RdmaExec.run .little fullQueue) ∧
      SendQueueBounded (ControlExec.serverRounds (List.replicate 1000 {}) fullQueue) :=
  have h := sendQueueBounded_iff .little accepted_fullQueue (List.replicate 1000 {})
  ⟨h.1.2 (by decide), h.2.2 (by decide)⟩

/-- One request more than the queue holds, only the last one signaled. -/
def fullRound : DccsParameters := { oneSend with mode := .throughput, count := 1001 }

theorem accepted_fullRound : Accepted fullRound :=
  ⟨fullRound, ⟨by decide, by decide, by decide, by decide, by decide, by decide⟩, rfl⟩

theorem sendQueueBounded_counterexample :
    Accepted fullRound ∧ ¬ SendQueueBounded (RdmaExec.run .little fullRound) :=
  ⟨accepted_fullRound, Overfull.not_bounded
    (hits_run (o := .little) accepted_fullRound (by decide) (by decide) rfl (by decide))⟩

end RdmaOpera
