import RdmaOpera.RdmaMain
import RdmaOpera.RdmaRules

/-!
# Waiting for completions: `send_and_wait_requests` and `recv_requests`

Both functions poll until something comes (`dccs_rdma.h:762-767`, `:683`). `Owed` counts what can
come: the signaled requests and the receives that were accepted and have not been polled yet. A post
that was refused owes nothing, but both functions wait all the same, where `send_message`,
`recv_message` and the exchange of regions (`sendStep`, `recvStep`) do not.
-/

namespace RdmaOpera.RdmaExec

open Lib Prog

/-- Completions still to come, and what went wrong so far: a request that is waited for was refused,
a poll returned a negative number. -/
structure Owed where
  sends : Nat := 0
  recvs : Nat := 0
  refused : Bool := false
  pollFailed : Bool := false

def Owed.upd (w : Owed) : (op : VOp) → op.Ans → Owed
  | .postSend wr, (rv : Int) =>
    if ¬ wr.signaled then w else if rv = 0 then { w with sends := w.sends + 1 } else { w with refused := true }
  | .postRecv _, (rv : Int) =>
    if rv = 0 then { w with recvs := w.recvs + 1 } else { w with refused := true }
  | .pollSend _, (p : Poll) =>
    if p = .failed then { w with pollFailed := true } else { w with sends := w.sends - p.wcs.length }
  | .pollRecv, (p : Poll) =>
    if p = .failed then { w with pollFailed := true } else { w with recvs := w.recvs - p.wcs.length }
  | _, _ => w

/-- A poll takes no more than it asked for, and nothing that is not owed. Posts are refused or
accepted, completions carry any status. -/
def Owed.adm (w : Owed) : (op : VOp) → op.Ans → Prop
  | .pollSend num, (p : Poll) => p.wcs.length ≤ num ∧ p.wcs.length ≤ w.sends
  | .pollRecv, (p : Poll) => p.wcs.length ≤ 1 ∧ p.wcs.length ≤ w.recvs
  | _, _ => True

def owing : Monitor Verbs Owed where
  upd := Owed.upd
  adm := Owed.adm
  spins := True

/-- A wait for one of `owed` completions ends unless a post was refused; and when no poll has
failed, it ends only then. -/
def Owed.Waits (w : Owed) (owed : Nat) : Prop :=
  (¬ w.refused → 0 < owed) ∧ (¬ w.pollFailed → 0 < owed → ¬ w.refused)

def Owed.ok (w : Owed) : VOp → Prop
  | .pollSend _ => w.Waits w.sends
  | .pollRecv => w.Waits w.recvs
  | _ => True

theorem quiet_owing : Quiet owing Owed.ok := ⟨fun _ _ => trivial, fun _ _ _ => rfl⟩

@[simp] theorem owing_spins : owing.spins ↔ True := Iff.rfl

/-- Between two turns: as long as every poll returned completions, nothing is owed. -/
def Owed.Settled (w : Owed) : Prop := ¬ w.pollFailed → w.sends = 0 ∧ w.recvs = 0 ∧ ¬ w.refused

/-! ## The sending side -/

/-- The turns change nothing but the times. -/
def SameVerbs (requests requests' : List DccsRequest) : Prop :=
  ∀ n, (reqAt requests' n).verb = (reqAt requests n).verb

theorem SameVerbs.set {requests requests' : List DccsRequest} {n : Nat} {r : DccsRequest}
    (h : SameVerbs requests requests') (hr : r.verb = (reqAt requests' n).verb) :
    SameVerbs requests (requests'.set n r) := by
  intro i
  rw [← h i]
  by_cases hi : i < requests'.length
  · rw [reqAt_set hi]
    split
    · rename_i e; subst e; exact hr
    · rfl
  · have hle := Nat.le_of_not_lt hi
    simp [reqAt, List.getElem?_eq_none hle,
      List.getElem?_eq_none (show (requests'.set n r).length ≤ i by simpa using hle)]

/-- After the post of a request that is waited for: it is owed now, unless it was refused. -/
theorem safe_postRequest {request : DccsRequest} {w : Owed} (hverb : request.verb ≠ .None)
    (hw : w.Settled) :
    Safe owing Owed.ok (postRequest request true) w fun _ w' =>
      w'.Waits w'.sends ∧ (¬ w'.pollFailed → w'.recvs = 0 ∧ w'.sends ≤ 1) := by
  obtain ⟨wr, hwr, hsig⟩ : ∃ wr, requestWr request true = some wr ∧ wr.signaled = true := by
    unfold requestWr
    cases hv : request.verb with
    | None => exact absurd hv hverb
    | Send | Read | Write => exact ⟨_, rfl, rfl⟩
  rw [postRequest, hwr]
  refine quiet_owing.dccsRdmaPost trivial fun rv _ => ?_
  by_cases hrv : rv = 0
  · have : owing.upd w (.postSend wr) rv = { w with sends := w.sends + 1 } := by
      simp [owing, Owed.upd, hsig, hrv]
    rw [this]
    refine ⟨⟨fun _ => Nat.succ_pos _, fun hp _ => (hw hp).2.2⟩, fun hp => ?_⟩
    obtain ⟨hs, hr, -⟩ := hw hp
    exact ⟨hr, by simp [hs]⟩
  · have : owing.upd w (.postSend wr) rv = { w with refused := true } := by
      simp [owing, Owed.upd, hsig, hrv]
    rw [this]
    refine ⟨⟨fun hf => absurd rfl hf, fun hp h0 => ?_⟩, fun hp => ?_⟩
    · have := (hw hp).1
      simp only at h0; omega
    · obtain ⟨hs, hr, -⟩ := hw hp
      exact ⟨hr, by simp [hs]⟩

/-- An unsignaled post is not waited for. -/
theorem safe_postRequest_unsignaled {request : DccsRequest} {w : Owed} :
    Safe owing Owed.ok (postRequest request false) w fun _ w' => w' = w := by
  unfold postRequest
  cases hwr : requestWr request false with
  | none => rfl
  | some wr =>
    have hsig : wr.signaled = false := by
      unfold requestWr at hwr
      split at hwr <;> cases hwr <;> rfl
    exact quiet_owing.dccsRdmaPost trivial fun rv _ => by simp [owing, Owed.upd, hsig]

/-- The wait: whatever was owed has been taken, unless the poll failed. -/
theorem safe_sendComp {w : Owed} (hok : w.Waits w.sends)
    (hw : ¬ w.pollFailed → w.recvs = 0 ∧ w.sends ≤ 1) :
    Safe owing Owed.ok (dccsRdmaSendComp 1) w fun _ w' => w'.Settled := by
  refine quiet_owing.dccsRdmaSendComp_one hok fun p hp => ?_
  obtain ⟨-, hle⟩ := hp
  cases p with
  | failed => exact fun hf => absurd rfl hf
  | got wc rest =>
    intro hpf
    simp only [Poll.wcs, List.length_cons] at hle
    obtain ⟨hr, hs⟩ := hw hpf
    have hsends : (owing.upd w (.pollSend 1) (Poll.got wc rest)).sends =
      w.sends - (rest.length + 1) := by
      simp [owing, Owed.upd, Poll.wcs]
    exact ⟨by omega, hr, hok.2 hpf (by omega)⟩

theorem safe_getCycles_owing {w : Owed} {Q : UInt64 → Owed → Prop} (h : ∀ c, Q c w) :
    Safe owing Owed.ok Call.getCycles w Q := ⟨trivial, fun c _ => h c⟩

/-- One turn of `send_and_wait_requests`. -/
theorem safe_sendAndWaitOne {count n : Nat} {s : SendState} {w : Owed}
    (hverb : s.signaled = true ∨ n = count - 1 → (reqAt s.requests n).verb ≠ .None) (hw : w.Settled) :
    Safe owing Owed.ok (sendAndWaitOne count n s) w fun s' w' =>
      w'.Settled ∧ SameVerbs s.requests s'.requests ∧
      (s'.signaled = true ↔ s.signaled = true ∨ n = count - 1) := by
  have hsame : ∀ start, SameVerbs s.requests (s.requests.set n { reqAt s.requests n with start }) :=
    fun start => SameVerbs.set (fun _ => rfl) rfl
  by_cases hsig : s.signaled = true ∨ n = count - 1
  · have hif : (if n = count - 1 then true else s.signaled) = true := by
      rcases hsig with h | h <;> simp [h]
    simp only [sendAndWaitOne, hif]
    refine (safe_postRequest (hverb hsig) hw).bind fun rv w' hw' => ?_
    refine safe_bind.2 (safe_getCycles_owing fun start => ?_)
    refine (safe_sendComp hw'.1 hw'.2).bind fun rv w' hw' => ?_
    refine safe_bind.2 (safe_getCycles_owing fun end_ => ?_)
    exact ⟨hw', (hsame start).set rfl, by simp [hsig]⟩
  · rw [not_or] at hsig
    have hif : (if n = count - 1 then true else s.signaled) = false := by
      rw [if_neg hsig.2]; simpa using hsig.1
    simp only [sendAndWaitOne, hif]
    refine safe_postRequest_unsignaled.bind fun rv w' hw' => ?_
    subst hw'
    refine safe_bind.2 (safe_getCycles_owing fun start => ?_)
    exact ⟨hw, hsame start, by simp [hsig]⟩

/-- The requests a round waits for have a verb it recognises. -/
def WaitedVerbs (params : DccsParameters) (requests : List DccsRequest) : Prop :=
  ∀ n < params.count, params.mode = .latency ∨ n + 1 = params.count →
    (reqAt requests n).verb ≠ .None

theorem safe_sendAndWaitRequests {params : DccsParameters} {requests : List DccsRequest} {w : Owed}
    (hverb : WaitedVerbs params requests) (hw : w.Settled) :
    Safe owing Owed.ok (sendAndWaitRequests requests params) w fun r w' =>
      w'.Settled ∧ SameVerbs requests r.2 := by
  refine safe_bind.2 (safe_getCycles_owing fun start => ?_)
  refine Safe.bind (safe_forN (fun n s w =>
      w.Settled ∧ SameVerbs requests s.requests ∧
        (s.signaled = true → params.mode = .latency ∨ n = params.count ∧ 0 < n))
    ⟨hw, fun _ => rfl, ?_⟩ fun n s w hn hs => ?_) fun s w' hs => ?_
  · cases params.mode <;> simp
  · obtain ⟨hw, hsame, hsig⟩ := hs
    refine (safe_sendAndWaitOne (fun hwait => ?_) hw).mono fun s' w' hs' =>
      ⟨hs'.1, fun i => ?_, fun h => ?_⟩
    · rw [hsame n]
      refine hverb n hn ?_
      rcases hwait with h | h
      · rcases hsig h with h | h
        · exact .inl h
        · omega
      · exact .inr (by omega)
    · rw [hs'.2.1 i, hsame i]
    · rcases hs'.2.2.1 h with h | h
      · rcases hsig h with h | h
        · exact .inl h
        · omega
      · exact .inr ⟨by omega, Nat.succ_pos n⟩
  · exact safe_bind.2 (safe_getCycles_owing fun _ => ⟨hs.1, hs.2.1⟩)

/-- A client's rounds. -/
theorem safe_clientRounds {params : DccsParameters} {requests : List DccsRequest} {rounds : Nat}
    (hverb : WaitedVerbs params requests) :
    Safe owing Owed.ok (forN rounds (clientRound params) requests) {} fun _ w => w.Settled := by
  refine (safe_forN (fun _ r w => w.Settled ∧ SameVerbs requests r)
    ⟨fun _ => ⟨rfl, rfl, by simp⟩, fun _ => rfl⟩ fun n r w _ hr => ?_).mono fun _ _ h => h.1
  obtain ⟨hw, hsame⟩ := hr
  have hverb' : WaitedVerbs params r := fun i hi h => by rw [hsame i]; exact hverb i hi h
  refine (safe_sendAndWaitRequests hverb' hw).bind fun res w' hres => ?_
  have hsame' : SameVerbs requests res.2 := fun i => by rw [hres.2 i, hsame i]
  exact safe_ite.2 ⟨fun _ => quiet_owing.logError_bind ⟨trivial, fun _ _ => ⟨hres.1, hsame'⟩⟩,
    fun _ => ⟨trivial, fun _ _ => ⟨hres.1, hsame'⟩⟩⟩

/-! ## The receiving side -/

theorem safe_countFailure {failed : Prop} [Decidable failed] {failedCount : Int} {w : Owed} :
    Safe owing Owed.ok (countFailure failed failedCount) w fun _ w' => w' = w :=
  safe_ite.2 ⟨fun _ => quiet_owing.logError_bind rfl, fun _ => rfl⟩

/-- One turn of `recv_requests`. -/
theorem safe_recvOne {requests : List DccsRequest} {n : Nat} {failedCount : Int} {w : Owed}
    (hw : w.Settled) :
    Safe owing Owed.ok (recvOne requests n failedCount) w fun _ w' => w'.Settled := by
  refine Safe.bind (R := fun _ w' => w'.Waits w'.recvs ∧
    (¬ w'.pollFailed → w'.sends = 0 ∧ w'.recvs ≤ 1))
    (quiet_owing.dccsRdmaRecv trivial fun rv _ => ?_) fun rv w' hw' => ?_
  · by_cases hrv : rv = 0
    · subst hrv
      refine ⟨⟨fun _ => Nat.succ_pos _, fun hp _ => (hw hp).2.2⟩, fun hp => ?_⟩
      obtain ⟨hs, hr, -⟩ := hw hp
      exact ⟨hs, by simp [owing, Owed.upd, hr]⟩
    · have : owing.upd w (.postRecv ⟨(reqAt requests n).buf.addr, (reqAt requests n).length,
          (reqAt requests n).mr⟩) rv = { w with refused := true } := by simp [owing, Owed.upd, hrv]
      rw [this]
      refine ⟨⟨fun hf => absurd rfl hf, fun hp h0 => ?_⟩, fun hp => ?_⟩
      · have := (hw hp).2.1
        simp only at h0; omega
      · obtain ⟨hs, hr, -⟩ := hw hp
        exact ⟨hs, by simp [hr]⟩
  · obtain ⟨hok, hw'⟩ := hw'
    refine safe_countFailure.bind fun fc w'' hw'' => ?_
    subst hw''
    refine Safe.bind (R := fun _ w' => w'.Settled) (safe_whileZero ?_) fun rv w' hw' => ?_
    · refine quiet_owing.dccsRdmaRecvComp hok (fun wc rest h => ?_) fun p hp => ⟨p.rv_ne_zero, ?_⟩
      · have := h.1
        simpa [Poll.wcs] using this
      · cases p with
        | failed => exact fun hf => absurd rfl hf
        | got wc rest =>
          intro hpf
          have hle := hp.2
          simp only [Poll.wcs, List.length_cons] at hle
          obtain ⟨hs, hr⟩ := hw' hpf
          have hrecvs : (owing.upd w'' .pollRecv (Poll.got wc rest)).recvs =
            w''.recvs - (rest.length + 1) := by
            simp [owing, Owed.upd, Poll.wcs]
          exact ⟨hs, by omega, hok.2 hpf (by omega)⟩
    · exact safe_countFailure.mono fun _ _ h => h ▸ hw'

/-- A server's rounds. -/
theorem safe_serverRounds {params : DccsParameters} {requests : List DccsRequest} {rounds : Nat} :
    Safe owing Owed.ok (forN rounds (serverRound params) requests) {} fun _ w => w.Settled := by
  refine safe_forN (fun _ _ (w : Owed) => w.Settled) (fun _ => ⟨rfl, rfl, by simp⟩)
    fun n r w _ hw => ?_
  unfold serverRound
  cases params.verb with
  | Read | Write | None => exact hw
  | Send =>
    refine Safe.bind (R := fun _ w' => w'.Settled) ?_ fun rv w' hw' => ?_
    · exact Safe.bind (safe_forN (fun _ _ (w : Owed) => w.Settled) hw
        fun n fc w _ hw => safe_recvOne hw)
        fun fc w' hw' => hw'
    · exact safe_ite.2 ⟨fun _ => quiet_owing.logError_bind hw', fun _ => hw'⟩

/-! ## Every wait -/

/-- **No wait without an owed completion**, as long as no request that is waited for was refused;
and while every poll has returned completions, a wait after a refusal has nothing to end it. -/
theorem wait_owed_iff {params : DccsParameters} {requests : List DccsRequest} {rounds : Nat}
    (hverb : WaitedVerbs params requests) :
    (∀ num k w, Reach owing (forN rounds (clientRound params) requests) {} (.call (.pollSend num) k) w →
      (¬ w.refused → 0 < w.sends) ∧ (¬ w.pollFailed → (0 < w.sends ↔ ¬ w.refused))) ∧
    (∀ k w, Reach owing (forN rounds (serverRound params) requests) {} (.call .pollRecv k) w →
      (¬ w.refused → 0 < w.recvs) ∧ (¬ w.pollFailed → (0 < w.recvs ↔ ¬ w.refused))) := by
  constructor
  · intro num k w hreach
    obtain ⟨⟨h1, h2⟩, -⟩ := (safe_clientRounds hverb).reach hreach
    exact ⟨h1, fun hp => ⟨h2 hp, h1⟩⟩
  · intro k w hreach
    obtain ⟨⟨h1, h2⟩, -⟩ := safe_serverRounds.reach hreach
    exact ⟨h1, fun hp => ⟨h2 hp, h1⟩⟩

/-- The only request is accepted, and then waited for. -/
theorem wait_owed_iff_oneSend : WaitedVerbs oneSend [{ verb := .Send }] ∧
    ∃ k w, Reach owing (forN 3 (clientRound oneSend) [{ verb := .Send }]) {}
      (.call (.pollSend 1) k) w ∧ ¬ w.refused ∧ 0 < w.sends := by
  have hverb : WaitedVerbs oneSend [{ verb := .Send }] := by
    intro n hn _
    obtain rfl : n = 0 := Nat.lt_one_iff.1 hn
    decide
  have hrun : ∃ k w, Reach owing (forN 3 (clientRound oneSend) [{ verb := .Send }]) {}
    (.call (.pollSend 1) k) w ∧ ¬ w.refused :=
    ⟨_, _, .call (0 : UInt64) trivial
      (.call (0 : Int) trivial (.call (0 : UInt64) trivial (.refl _ _))), by decide⟩
  obtain ⟨k, w, hreach, hposted⟩ := hrun
  exact ⟨hverb, k, w, hreach, hposted, ((wait_owed_iff hverb).1 1 k w hreach).1 hposted⟩

/-- The only request is refused, and then waited for. -/
theorem wait_counterexample : ¬ ∀ num k w,
    Reach owing (forN 1 (clientRound oneSend) [{ verb := .Send, length := 1 }]) {} (.call (.pollSend num) k) w →
      0 < w.sends := by
  intro h
  have hrun : ∃ k w, Reach owing (forN 1 (clientRound oneSend) [{ verb := .Send, length := 1 }]) {}
      (.call (.pollSend 1) k) w ∧ w.sends = 0 :=
    ⟨_, _, .call (0 : UInt64) trivial (.call (-1 : Int) trivial (.call () trivial (.call (0 : UInt64) trivial
      (.refl _ _)))), rfl⟩
  obtain ⟨k, w, hreach, h0⟩ := hrun
  have := h 1 k w hreach
  omega

end RdmaOpera.RdmaExec
