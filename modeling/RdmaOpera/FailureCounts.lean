import Mathlib.Data.Nat.Count
import RdmaOpera.Completions

/-!
# How failed requests are counted: `send_and_wait_requests` and `recv_requests`

A request can fail twice, when it is posted and when it completes. `send_and_wait_requests` keeps a
flag for each request (`dccs_rdma.h:733`, `:758-770`), `recv_requests` adds one at either place
(`:681`, `:686`).

In throughput mode `send_and_wait_requests` waits once, after the last request (`:734-736`), the only
one with `IBV_SEND_SIGNALED`. The others have a completion as well if they end in error, and the one
wait takes the oldest there is.
-/

namespace RdmaOpera

open Lib Prog

/-- `ibv_poll_cq` returned a negative number, or an entry with another status than `IBV_WC_SUCCESS`. -/
def Poll.Failed (p : Poll) : Prop := p = .failed ∨ ∃ wc ∈ p.wcs, ¬ wc.success

instance (p : Poll) : Decidable p.Failed := inferInstanceAs (Decidable (_ ∨ _))

theorem Poll.rv_neg {p : Poll} : p.rv < 0 ↔ p.Failed := by
  rw [← not_le, Poll.rv_nonneg, Poll.Failed, not_and_or, not_not]
  simp

/-- What the posts and the polls of a call were answered, in order. -/
structure Answered where
  posts : List Int := []
  polls : List Poll := []

/-- Any answers; a poll stores no more entries than it is asked for. -/
def answering : Monitor Verbs Answered where
  upd w
    | .postSend _, (rv : Int) => { w with posts := w.posts ++ [rv] }
    | .postRecv _, (rv : Int) => { w with posts := w.posts ++ [rv] }
    | .pollSend _, (p : Poll) => { w with polls := w.polls ++ [p] }
    | .pollRecv, (p : Poll) => { w with polls := w.polls ++ [p] }
    | _, _ => w
  adm _
    | .pollSend num, (p : Poll) => p.wcs.length ≤ num
    | .pollRecv, (p : Poll) => p.wcs.length ≤ 1
    | _, _ => True
  spins := True

theorem quiet_answering : Quiet answering fun _ _ => True := ⟨fun _ _ => trivial, fun _ _ _ => rfl⟩

namespace Answered

def PostFailed (w : Answered) (n : Nat) : Prop := (w.posts[n]?).any (fun rv => rv ≠ 0)

def CompletionFailed (w : Answered) (n : Nat) : Prop := (w.polls[n]?).any (fun p => p.Failed)

instance (w : Answered) : DecidablePred w.PostFailed :=
  fun _ => inferInstanceAs (Decidable (_ = true))
instance (w : Answered) : DecidablePred w.CompletionFailed :=
  fun _ => inferInstanceAs (Decidable (_ = true))

end Answered

/-! ## Which requests have failed -/

/-- Request `n` of `recv_requests` is the `n`-th to be posted and the `n`-th to be waited for. -/
def RecvFailed (w : Answered) (n : Nat) : Prop := w.PostFailed n ∨ w.CompletionFailed n

instance (w : Answered) : DecidablePred (RecvFailed w) :=
  fun _ => inferInstanceAs (Decidable (_ ∨ _))

/-- The requests before `n` that are posted at all: their verb is recognised. -/
def postedBefore (requests : List DccsRequest) (n : Nat) : Nat :=
  Nat.count (fun i => (reqAt requests i).verb ≠ .None) n

def SendPostFailed (requests : List DccsRequest) (w : Answered) (n : Nat) : Prop :=
  (reqAt requests n).verb ≠ .None ∧ w.PostFailed (postedBefore requests n)

/-- Posted, and not refused. -/
def SendAccepted (requests : List DccsRequest) (w : Answered) (n : Nat) : Prop :=
  (reqAt requests n).verb ≠ .None ∧ ¬ w.PostFailed (postedBefore requests n)

/-- `inError` says how a request ends that nobody waits for. A wait of latency mode is for the
request of its turn; that of throughput mode can fail itself, and then it was for the last one. -/
def SendCompletionFailed (requests : List DccsRequest) (params : DccsParameters)
    (inError : Nat → Prop) (w : Answered) (n : Nat) : Prop :=
  match params.mode with
  | .latency => w.CompletionFailed n
  | .throughput => SendAccepted requests w n ∧ inError n ∨
    n = params.count - 1 ∧ w.polls[0]? = some .failed

def SendFailed (requests : List DccsRequest) (params : DccsParameters) (inError : Nat → Prop)
    (w : Answered) (n : Nat) : Prop :=
  SendPostFailed requests w n ∨ SendCompletionFailed requests params inError w n

/-- The one wait of throughput mode takes the oldest completion: that of a request that ended in
error, if there is one, or else that of the last. -/
def OldestTaken (requests : List DccsRequest) (params : DccsParameters) (inError : Nat → Prop)
    (w : Answered) : Prop :=
  params.mode = .throughput → ∀ wc rest, w.polls[0]? = some (.got wc rest) →
    ((Poll.got wc rest).Failed ↔ ∃ n < params.count, SendAccepted requests w n ∧ inError n)

/-- In throughput mode there is one completion in error at most, and none behind a refused last
request. -/
def OneInError (requests : List DccsRequest) (params : DccsParameters) (inError : Nat → Prop)
    (w : Answered) : Prop :=
  params.mode = .throughput →
    (∀ m < params.count, ∀ n < params.count, SendCompletionFailed requests params inError w m →
      SendCompletionFailed requests params inError w n → m = n) ∧
    (SendPostFailed requests w (params.count - 1) →
      ∀ n < params.count, ¬ (SendAccepted requests w n ∧ inError n))

section
variable (requests : List DccsRequest) (params : DccsParameters) (inError : Nat → Prop)
  [DecidablePred inError] (w : Answered)

instance : DecidablePred (SendPostFailed requests w) :=
  fun _ => inferInstanceAs (Decidable (_ ∧ _))

instance : DecidablePred (SendAccepted requests w) :=
  fun _ => inferInstanceAs (Decidable (_ ∧ _))

instance : DecidablePred (SendCompletionFailed requests params inError w) := by
  intro n
  unfold SendCompletionFailed
  cases params.mode <;> infer_instance

instance : DecidablePred (SendFailed requests params inError w) :=
  fun _ => inferInstanceAs (Decidable (_ ∨ _))

end

/-- The result of a call over `count` requests. -/
structure FailuresCounted (count : Nat) (failed : Nat → Prop) [DecidablePred failed] (rv : Int) :
    Prop where
  distinct : rv = -(Nat.count failed count : Nat)
  lower : -(count : Int) ≤ rv
  upper : rv ≤ 0
  success : rv = 0 ↔ ∀ n < count, ¬ failed n

theorem failuresCounted_iff {count : Nat} {failed : Nat → Prop} [DecidablePred failed] {rv : Int} :
    FailuresCounted count failed rv ↔ rv = -(Nat.count failed count : Nat) := by
  constructor
  · exact FailuresCounted.distinct
  · intro h
    have hle : Nat.count failed count ≤ count := Nat.count_le _
    refine ⟨h, by omega, by omega, ?_⟩
    rw [← Nat.count_iff_forall_not]
    omega

/-! ## Counting -/

theorem count_congr {p q : Nat → Prop} [DecidablePred p] [DecidablePred q] {n : Nat}
    (h : ∀ i < n, p i ↔ q i) :
    Nat.count p n = Nat.count q n :=
  le_antisymm (Nat.count_mono_left fun i hi => (h i hi).1) (Nat.count_mono_left
    fun i hi => (h i hi).2)

/-- A request with two failures is counted twice. -/
theorem count_or_add_count_and (p q : Nat → Prop) [DecidablePred p] [DecidablePred q] (n : Nat) :
    Nat.count p n + Nat.count q n = Nat.count (fun i => p i ∨ q i) n + Nat.count (fun i => p i ∧ q i) n := by
  induction n with
  | zero => simp
  | succ n ih =>
    simp only [Nat.count_succ]
    by_cases hp : p n <;> by_cases hq : q n <;> simp [hp, hq] <;> omega

theorem count_or (p q : Nat → Prop) [DecidablePred p] [DecidablePred q] (n : Nat) :
    Nat.count (fun i => p i ∨ q i) n = Nat.count p n + Nat.count (fun i => q i ∧ ¬ p i) n := by
  induction n with
  | zero => simp
  | succ n ih =>
    simp only [Nat.count_succ]
    by_cases hp : p n <;> by_cases hq : q n <;> simp [hp, hq] <;> omega

theorem count_le_one {p : Nat → Prop} [DecidablePred p] {n : Nat} :
    Nat.count p n ≤ 1 ↔ ∀ i < n, ∀ j < n, p i → p j → i = j := by
  rw [Nat.count_eq_card_filter_range, Finset.card_le_one]
  simp only [Finset.mem_filter, Finset.mem_range]
  exact ⟨fun h i hi j hj hpi hpj => h i ⟨hi, hpi⟩ j ⟨hj, hpj⟩,
    fun h i hi j hj => h i hi.1 j hj.1 hi.2 hj.2⟩

section
variable {w : Answered} {i n : Nat}

theorem postFailed_append (rv : Int) : i < w.posts.length →
    (({ w with posts := w.posts ++ [rv] } : Answered).PostFailed i ↔ w.PostFailed i) := by
  intro hi
  simp [Answered.PostFailed, List.getElem?_append_left hi]

theorem completionFailed_append (p : Poll) : i < w.polls.length →
    (({ w with polls := w.polls ++ [p] } : Answered).CompletionFailed i ↔
      w.CompletionFailed i) := by
  intro hi
  simp [Answered.CompletionFailed, List.getElem?_append_left hi]

theorem postFailed_last (rv : Int) :
    ({ w with posts := w.posts ++ [rv] } : Answered).PostFailed w.posts.length ↔ rv ≠ 0 := by
  simp [Answered.PostFailed]

theorem completionFailed_last (p : Poll) :
    ({ w with polls := w.polls ++ [p] } : Answered).CompletionFailed w.polls.length ↔ p.Failed := by
  simp [Answered.CompletionFailed]

/-! ## `recv_requests` -/

theorem safe_countFailure {failed : Prop} [Decidable failed] {failedCount : Int} :
    Safe answering (fun _ _ => True) (countFailure failed failedCount) w fun r w' =>
      w' = w ∧ r = if failed then failedCount + 1 else failedCount := by
  unfold countFailure
  by_cases hf : failed
  · rw [if_pos hf, if_pos hf]
    exact quiet_answering.logError_bind ⟨rfl, rfl⟩
  · rw [if_neg hf, if_neg hf]
    exact ⟨rfl, rfl⟩

/-- Before turn `n`. -/
structure Receiving (n : Nat) (failedCount : Int) (w : Answered) : Prop where
  posts : w.posts.length = n
  polls : w.polls.length = n
  counted : failedCount = (Nat.count w.PostFailed n + Nat.count w.CompletionFailed n : Nat)

theorem safe_recvOne {requests : List DccsRequest} {failedCount : Int}
    (h : Receiving n failedCount w) :
    Safe answering (fun _ _ => True) (recvOne requests n failedCount) w (Receiving (n + 1)) := by
  obtain ⟨rfl, hpolls, hcounted⟩ := h
  have hpost : ∀ p len mr, Safe answering (fun _ _ => True) (dccsRdmaRecv p len mr) w fun rv w₁ =>
    w₁ = { w with posts := w.posts ++ [rv] } :=
    fun _ _ _ => quiet_answering.dccsRdmaRecv trivial fun rv _ => rfl
  refine (hpost _ _ _).bind fun rv w₁ hw₁ => safe_countFailure.bind fun failedCount₁ w₂ h₂ => ?_
  obtain ⟨rfl, rfl⟩ := h₂
  have hone : ∀ wc rest, answering.adm w₂ .pollRecv (.got wc rest) → rest = [] := by
    intro wc rest hadm
    exact List.eq_nil_of_length_eq_zero (Nat.le_zero.1 (Nat.le_of_succ_le_succ hadm))
  have hpoll := quiet_answering.dccsRdmaRecvComp (s := w₂)
    (Q := fun rv w₃ => rv ≠ 0 ∧ ∃ p : Poll, rv = p.rv ∧
      w₃ = { w₂ with polls := w₂.polls ++ [p] }) trivial hone
    fun p _ => ⟨p.rv_ne_zero, p, rfl, rfl⟩
  refine (safe_whileZero hpoll).bind fun rv' w₃ h₃ => ?_
  obtain ⟨p, rfl, rfl⟩ := h₃
  refine safe_countFailure.mono fun failedCount₂ w₄ h₄ => ?_
  obtain ⟨rfl, rfl⟩ := h₄
  subst hw₁
  have hposts : Nat.count (Answered.PostFailed ⟨w.posts ++ [rv], w.polls ++ [p]⟩) (w.posts.length + 1) =
      Nat.count w.PostFailed w.posts.length + if rv ≠ 0 then 1 else 0 := by
    rw [Nat.count_succ, count_congr fun i hi => postFailed_append (w := ⟨w.posts, w.polls ++ [p]⟩) rv hi]
    simp only [postFailed_last (w := ⟨w.posts, w.polls ++ [p]⟩) rv]
    rfl
  have hcompletions :
    Nat.count (Answered.CompletionFailed ⟨w.posts ++ [rv], w.polls ++ [p]⟩) (w.posts.length + 1) =
      Nat.count w.CompletionFailed w.posts.length + if p.Failed then 1 else 0 := by
    rw [← hpolls, Nat.count_succ, count_congr fun i hi => completionFailed_append
      (w := ⟨w.posts ++ [rv], w.polls⟩) p hi]
    simp only [completionFailed_last (w := ⟨w.posts ++ [rv], w.polls⟩) p]
    rfl
  refine ⟨by simp, by simp [hpolls], ?_⟩
  show (if p.rv < 0 then (if rv ≠ 0 then failedCount + 1 else failedCount) + 1
    else if rv ≠ 0 then failedCount + 1 else failedCount) = _
  rw [hposts, hcompletions, hcounted]
  simp only [Poll.rv_neg]
  split_ifs <;> push_cast <;> ring

theorem recvRequests_failed {requests : List DccsRequest} {params : DccsParameters} {rv : Int}
    (h : Reach answering (recvRequests requests params) {} (.ret rv) w) :
    rv = -(Nat.count w.PostFailed params.count + Nat.count w.CompletionFailed params.count : Nat) := by
  have hfirst : Receiving 0 0 {} := ⟨rfl, rfl, by simp⟩
  have hsafe : Safe answering (fun _ _ => True) (recvRequests requests params) {} fun rv w =>
      rv = -(Nat.count w.PostFailed params.count + Nat.count w.CompletionFailed params.count : Nat) := by
    refine (safe_forN Receiving hfirst fun n failedCount w _ hI => safe_recvOne hI).bind
      fun failedCount w hI => ?_
    rw [hI.counted]
    rfl
  exact hsafe.reach h

/-! ## `send_and_wait_requests` -/

variable {requests : List DccsRequest} {params : DccsParameters}

/-- The wait of turn `n` failed, if there is one. -/
def SendWaitFailed (params : DccsParameters) (w : Answered) (n : Nat) : Prop :=
  match params.mode with
  | .latency => w.CompletionFailed n
  | .throughput => n = params.count - 1 ∧ w.CompletionFailed 0

/-- The flag of turn `n`. -/
def SendCounted (requests : List DccsRequest) (params : DccsParameters) (w : Answered) (n : Nat) :
    Prop :=
  SendPostFailed requests w n ∨ SendWaitFailed params w n

instance (params : DccsParameters) (w : Answered) : DecidablePred (SendWaitFailed params w) := by
  intro n
  unfold SendWaitFailed
  cases params.mode <;> infer_instance

instance (requests : List DccsRequest) (params : DccsParameters) (w : Answered) :
    DecidablePred (SendCounted requests params w) :=
  fun _ => inferInstanceAs (Decidable (_ ∨ _))

/-- Before turn `n`, and if there is one, what it will be like. -/
structure Sending (requests : List DccsRequest) (params : DccsParameters) (n : Nat) (s : SendState)
    (w : Answered) : Prop where
  verbs : RdmaExec.SameVerbs requests s.requests
  posts : w.posts.length = postedBefore requests n
  going : n < params.count → (s.signaled = true ↔ params.mode = .latency) ∧
    w.polls.length = match params.mode with
      | .latency => n
      | .throughput => 0
  waited : n = params.count → 0 < n → params.mode = .throughput → w.polls.length = 1
  counted : s.failedCount = (Nat.count (SendCounted requests params w) n : Nat)

/-- After the post of turn `n`, if there is one. -/
structure PostAnswered (requests : List DccsRequest) (n : Nat) (w : Answered) (rv : Int)
    (w' : Answered) : Prop where
  polls : w'.polls = w.polls
  posts : w'.posts.length = postedBefore requests (n + 1)
  kept : ∀ i < n, SendPostFailed requests w' i ↔ SendPostFailed requests w i
  failed : SendPostFailed requests w' n ↔ rv ≠ 0

theorem safe_postRequest {request : DccsRequest} {signaled : Bool}
    (hverb : request.verb = (reqAt requests n).verb)
    (hposts : w.posts.length = postedBefore requests n) :
    Safe answering (fun _ _ => True) (postRequest request signaled) w (PostAnswered requests n w) := by
  unfold postRequest
  by_cases hnone : (reqAt requests n).verb = .None
  · have hwr : requestWr request signaled = none := by
      unfold requestWr
      rw [hverb, hnone]
    rw [hwr]
    refine ⟨rfl, ?_, fun _ _ => Iff.rfl, ?_⟩
    · rw [hposts, postedBefore, postedBefore, Nat.count_succ]
      simp [hnone]
    · simp [SendPostFailed, hnone]
  · obtain ⟨wr, hwr⟩ : ∃ wr, requestWr request signaled = some wr := by
      unfold requestWr
      rw [hverb]
      cases hv : (reqAt requests n).verb with
      | None => exact absurd hv hnone
      | Send | Read | Write => exact ⟨_, rfl⟩
    rw [hwr]
    refine quiet_answering.dccsRdmaPost trivial fun rv _ => ?_
    show PostAnswered requests n w rv { w with posts := w.posts ++ [rv] }
    refine ⟨rfl, ?_, fun i hi => ?_, ?_⟩
    · rw [List.length_append, hposts, postedBefore, postedBefore, Nat.count_succ]
      simp [hnone]
    · refine and_congr_right fun hv => postFailed_append rv ?_
      rw [hposts]
      exact Nat.count_strict_mono hv hi
    · rw [SendPostFailed, ← hposts, postFailed_last]
      simp [hnone]

/-- The posts of one turn, and of the turns before it, decide together with the completions. -/
theorem counted_of_turn {s : SendState} {rv : Int} {w₁ w₂ : Answered} {failed : Prop}
    [Decidable failed]
    (hcounted : s.failedCount = (Nat.count (SendCounted requests params w) n : Nat))
    (hposted : PostAnswered requests n w rv w₁) (hw₂ : w₂.posts = w₁.posts)
    (hkept : ∀ i < n, SendWaitFailed params w₂ i ↔ SendWaitFailed params w i)
    (hlast : SendWaitFailed params w₂ n ↔ failed) :
    (if rv ≠ 0 ∨ failed then s.failedCount + 1 else s.failedCount) =
      (Nat.count (SendCounted requests params w₂) (n + 1) : Nat) := by
  have hposts : ∀ i, SendPostFailed requests w₂ i ↔ SendPostFailed requests w₁ i := by
    intro i
    simp only [SendPostFailed, Answered.PostFailed, hw₂]
  have hbefore : Nat.count (SendCounted requests params w₂) n =
    Nat.count (SendCounted requests params w) n :=
    count_congr fun i hi => or_congr ((hposts i).trans (hposted.kept i hi)) (hkept i hi)
  have hturn : SendCounted requests params w₂ n ↔ rv ≠ 0 ∨ failed :=
    or_congr ((hposts n).trans hposted.failed) hlast
  rw [Nat.count_succ, hbefore, hcounted]
  by_cases hf : rv ≠ 0 ∨ failed
  · rw [if_pos hf, if_pos (hturn.2 hf)]
    rfl
  · rw [if_neg hf, if_neg fun h => hf (hturn.1 h)]
    rfl

/-- The completion of turn `n`, if one is asked for. -/
theorem sendWaitFailed_append (p : Poll) (hn : n < params.count)
    (hasked : n = params.count - 1 ∨ params.mode = .latency)
    (hlen : w.polls.length = match params.mode with
      | .latency => n
      | .throughput => 0) :
    (∀ i < n, SendWaitFailed params { w with polls := w.polls ++ [p] } i ↔
      SendWaitFailed params w i) ∧
      (SendWaitFailed params { w with polls := w.polls ++ [p] } n ↔ p.Failed) := by
  unfold SendWaitFailed
  cases hmode : params.mode with
  | latency =>
    rw [hmode] at hlen
    have hlen : w.polls.length = n := hlen
    subst hlen
    exact ⟨fun i hi => completionFailed_append p hi, completionFailed_last p⟩
  | throughput =>
    rw [hmode] at hlen hasked
    have hlen : w.polls.length = 0 := hlen
    have hlast : n = params.count - 1 := hasked.resolve_right nofun
    constructor
    · intro i hi
      have hne : i ≠ params.count - 1 := by omega
      simp [hne]
    · rw [← hlen]
      exact (and_iff_right hlast).trans (completionFailed_last p)

theorem safe_sendAndWaitOne {s : SendState} (hn : n < params.count)
    (h : Sending requests params n s w) :
    Safe answering (fun _ _ => True) (sendAndWaitOne params.count n s) w (Sending requests params (n + 1)) := by
  obtain ⟨hverbs, hposts, hgoing, -, hcounted⟩ := h
  obtain ⟨hsignaled, hpolls⟩ := hgoing hn
  have hsame : ∀ start,
    RdmaExec.SameVerbs requests (s.requests.set n { reqAt s.requests n with start }) :=
    fun start => hverbs.set rfl
  refine (safe_postRequest (hverbs n) hposts).bind fun rv w₁ hposted =>
    safe_bind.2 ⟨trivial, fun start _ => ?_⟩
  have hbefore : ∀ i, SendWaitFailed params w₁ i ↔ SendWaitFailed params w i := by
    intro i
    simp only [SendWaitFailed, Answered.CompletionFailed, hposted.polls]
  by_cases hsig : n = params.count - 1 ∨ s.signaled = true
  · have hif : (if n = params.count - 1 then true else s.signaled) = true := by
      rcases hsig with h | h <;> simp [h]
    rw [hif]
    refine safe_ite.2 ⟨fun _ => ?_, fun h => absurd rfl h⟩
    refine safe_bind.2 (quiet_answering.dccsRdmaSendComp_one trivial
      fun p _ => safe_bind.2 ⟨trivial, fun end_ _ => ?_⟩)
    have hlen : w₁.polls.length = match params.mode with
        | .latency => n
        | .throughput => 0 := by rw [hposted.polls, hpolls]
    obtain ⟨hkept, hlast⟩ := sendWaitFailed_append p hn (hsig.imp_right hsignaled.1) hlen
    have hkept : ∀ i < n, SendWaitFailed params { w₁ with polls := w₁.polls ++ [p] } i ↔
      SendWaitFailed params w i :=
      fun i hi => (hkept i hi).trans (hbefore i)
    rw [← Poll.rv_neg] at hlast
    refine ⟨(hsame start).set rfl, hposted.posts, fun hlt => ?_, fun _ _ hthroughput => ?_,
      counted_of_turn hcounted hposted rfl hkept hlast⟩
    · have hlatency : params.mode = .latency := hsignaled.1 (hsig.resolve_left (by omega))
      simp only [hlatency] at hlen ⊢
      refine ⟨by simp, ?_⟩
      show (w₁.polls ++ [p]).length = n + 1
      rw [List.length_append, hlen]
      rfl
    · simp only [hthroughput] at hlen
      show (w₁.polls ++ [p]).length = 1
      rw [List.length_append, hlen]
      rfl
  · rw [not_or] at hsig
    have hif : (if n = params.count - 1 then true else s.signaled) = false := by
      rw [if_neg hsig.1]
      exact Bool.eq_false_of_not_eq_true hsig.2
    have hthroughput : params.mode = .throughput := by
      cases hmode : params.mode with
      | latency => exact absurd (hsignaled.2 hmode) hsig.2
      | throughput => rfl
    have hlast : SendWaitFailed params w₁ n ↔ False := by
      simp [SendWaitFailed, hthroughput, hsig.1]
    have hcounted' := counted_of_turn hcounted hposted rfl (fun i _ => hbefore i) hlast
    rw [hif]
    refine safe_ite.2 ⟨fun h => absurd h Bool.false_ne_true, fun _ => ?_⟩
    refine ⟨hsame start, hposted.posts, fun _ => ⟨by simp [hthroughput], ?_⟩,
      fun hend => absurd hend (by omega), ?_⟩
    · show w₁.polls.length = _
      rw [hposted.polls, hpolls]
      simp [hthroughput]
    · show (if rv ≠ 0 then s.failedCount + 1 else s.failedCount) =
        (Nat.count (SendCounted requests params w₁) (n + 1) : Nat)
      rw [← hcounted']
      simp

theorem sendAndWaitRequests_failed {rv : Int} {requests' : List DccsRequest}
    (h : Reach answering (sendAndWaitRequests requests params) {} (.ret (rv, requests')) w) :
    rv = -(Nat.count (SendCounted requests params w) params.count : Nat) ∧
      (params.mode = .throughput → 0 < params.count → w.polls.length = 1) := by
  have hsafe : Safe answering (fun _ _ => True) (sendAndWaitRequests requests params) {} fun r w =>
      r.1 = -(Nat.count (SendCounted requests params w) params.count : Nat) ∧
        (params.mode = .throughput → 0 < params.count → w.polls.length = 1) := by
    refine safe_bind.2 ⟨trivial, fun _ _ => ?_⟩
    have hfirst : ∀ signaled, (signaled = true ↔ params.mode = .latency) →
      Sending requests params 0 { requests, signaled } {} := by
      intro signaled hsignaled
      refine ⟨fun _ => rfl, by simp [postedBefore], fun _ => ⟨hsignaled, ?_⟩,
        fun _ hpos => absurd hpos (Nat.lt_irrefl 0), by simp⟩
      cases params.mode <;> rfl
    refine (safe_forN (Sending requests params) (hfirst _ ?_)
      fun n s w hn hI => safe_sendAndWaitOne hn hI).bind ?_
    · cases params.mode <;> simp
    · intro s w hI
      refine safe_bind.2 ⟨trivial, fun _ _ => ?_⟩
      refine ⟨?_, fun hmode hpos => hI.waited rfl hpos hmode⟩
      show -s.failedCount = -(Nat.count (SendCounted requests params w) params.count : Nat)
      rw [hI.counted]
  exact hsafe.reach h

/-! ### The requests nobody waits for -/

section
variable {inError : Nat → Prop} [DecidablePred inError]

theorem SendAccepted.not_failed (h : SendAccepted requests w n) : ¬ SendPostFailed requests w n :=
  fun hfailed => h.2 hfailed.2

theorem count_sendCounted (n : Nat) :
    Nat.count (SendCounted requests params w) n = Nat.count (SendPostFailed requests w) n +
      Nat.count (fun i => SendWaitFailed params w i ∧ ¬ SendPostFailed requests w i) n :=
  (count_congr fun _ _ => Iff.rfl).trans (count_or _ _ n)

theorem count_sendFailed (n : Nat) :
    Nat.count (SendFailed requests params inError w) n = Nat.count (SendPostFailed requests w) n +
      Nat.count (fun i => SendCompletionFailed requests params inError w i ∧
        ¬ SendPostFailed requests w i) n :=
  (count_congr fun _ _ => Iff.rfl).trans (count_or _ _ n)

/-- A refused last request is counted, whatever the wait brings; so whatever else ends in error is
not. -/
theorem counted_iff_refused (hmode : params.mode = .throughput)
    (hlast : SendPostFailed requests w (params.count - 1)) :
    Nat.count (SendCounted requests params w) params.count =
        Nat.count (SendFailed requests params inError w) params.count ↔
      ∀ n < params.count, ¬ (SendAccepted requests w n ∧ inError n) := by
  have hcounted : Nat.count (fun n => SendWaitFailed params w n ∧ ¬ SendPostFailed requests w n)
      params.count = 0 := by
    refine Nat.count_iff_forall_not.2 fun n _ h => ?_
    unfold SendWaitFailed at h
    rw [hmode] at h
    exact h.2 (h.1.1 ▸ hlast)
  have hfailed : ∀ n, SendCompletionFailed requests params inError w n ∧
      ¬ SendPostFailed requests w n ↔ SendAccepted requests w n ∧ inError n := by
    intro n
    unfold SendCompletionFailed
    rw [hmode]
    constructor
    · rintro ⟨hin | ⟨rfl, -⟩, hnot⟩
      · exact hin
      · exact absurd hlast hnot
    · exact fun hin => ⟨.inl hin, hin.1.not_failed⟩
  rw [count_sendCounted, count_sendFailed, hcounted, count_congr fun n _ => hfailed n, Nat.add_left_cancel_iff,
    eq_comm, Nat.count_iff_forall_not]

/-- Otherwise it is the one that is counted for what the wait brings. -/
theorem counted_iff_posted (hmode : params.mode = .throughput) (hpos : 0 < params.count)
    {p : Poll} (hp : w.polls = [p]) (h : OldestTaken requests params inError w)
    (hlast : ¬ SendPostFailed requests w (params.count - 1)) :
    Nat.count (SendCounted requests params w) params.count =
        Nat.count (SendFailed requests params inError w) params.count ↔
      ∀ m < params.count, ∀ n < params.count, SendCompletionFailed requests params inError w m →
        SendCompletionFailed requests params inError w n → m = n := by
  have hcompletion : ∀ n, SendCompletionFailed requests params inError w n ↔
      SendAccepted requests w n ∧ inError n ∨ n = params.count - 1 ∧ p = .failed := by
    intro n
    unfold SendCompletionFailed
    rw [hmode, hp]
    simp
  have hwait : ∀ n, SendWaitFailed params w n ∧ ¬ SendPostFailed requests w n ↔
      n = params.count - 1 ∧ p.Failed := by
    intro n
    unfold SendWaitFailed Answered.CompletionFailed
    rw [hmode, hp]
    constructor
    · rintro ⟨⟨hn, hf⟩, -⟩
      exact ⟨hn, by simpa using hf⟩
    · rintro ⟨rfl, hf⟩
      exact ⟨⟨rfl, by simpa using hf⟩, hlast⟩
  have hfailed : ∀ n, SendCompletionFailed requests params inError w n ∧
      ¬ SendPostFailed requests w n ↔ SendCompletionFailed requests params inError w n := by
    refine fun n => and_iff_left_of_imp fun hn => ?_
    rcases (hcompletion n).1 hn with hin | ⟨rfl, -⟩
    · exact hin.1.not_failed
    · exact hlast
  have hsome : p.Failed ↔ ∃ n < params.count, SendCompletionFailed requests params inError w n := by
    cases p with
    | failed => exact ⟨fun _ => ⟨_, Nat.sub_one_lt_of_lt hpos, (hcompletion _).2 (.inr ⟨rfl, rfl⟩)⟩,
        fun _ => .inl rfl⟩
    | got wc rest =>
      simp only [hcompletion, reduceCtorEq, and_false, or_false]
      exact h hmode wc rest (by rw [hp]; rfl)
  have hcounted : Nat.count (fun n => n = params.count - 1 ∧ p.Failed) params.count ≤ 1 :=
    count_le_one.2 fun i _ j _ hi hj => hi.1.trans hj.1.symm
  have hzero : Nat.count (fun n => n = params.count - 1 ∧ p.Failed) params.count = 0 ↔
      Nat.count (SendCompletionFailed requests params inError w) params.count = 0 := by
    rw [Nat.count_iff_forall_not, Nat.count_iff_forall_not]
    constructor
    · intro hnone n hn hf
      exact hnone _ (Nat.sub_one_lt_of_lt hpos) ⟨rfl, hsome.2 ⟨n, hn, hf⟩⟩
    · intro hnone n _ hf
      obtain ⟨m, hm, hf⟩ := hsome.1 hf.2
      exact hnone m hm hf
  rw [← count_le_one, count_sendCounted, count_sendFailed, count_congr fun n _ => hwait n, count_congr fun n _ => hfailed n,
    Nat.add_left_cancel_iff]
  omega

theorem counted_iff (hwaited : params.mode = .throughput → 0 < params.count → w.polls.length = 1)
    (h : OldestTaken requests params inError w) :
    Nat.count (SendCounted requests params w) params.count =
        Nat.count (SendFailed requests params inError w) params.count ↔
      OneInError requests params inError w := by
  cases hmode : params.mode with
  | latency =>
    refine iff_of_true (count_congr fun n _ => or_congr_right ?_) fun hm => ?_
    · unfold SendWaitFailed SendCompletionFailed
      rw [hmode]
    · rw [hmode] at hm
      cases hm
  | throughput =>
    rcases Nat.eq_zero_or_pos params.count with hzero | hpos
    · refine iff_of_true (by rw [hzero]; rfl) fun _ => ?_
      rw [hzero]
      exact ⟨fun m hm => absurd hm (Nat.not_lt_zero m), fun _ n hn => absurd hn (Nat.not_lt_zero n)⟩
    obtain ⟨p, hp⟩ := List.length_eq_one_iff.1 (hwaited hmode hpos)
    by_cases hlast : SendPostFailed requests w (params.count - 1)
    · rw [counted_iff_refused hmode hlast]
      refine ⟨fun hnone _ => ⟨fun m hm n hn hfm hfn => ?_, fun _ => hnone⟩,
        fun hone => (hone hmode).2 hlast⟩
      have honly : ∀ n < params.count, SendCompletionFailed requests params inError w n →
          n = params.count - 1 := by
        intro n hn hf
        unfold SendCompletionFailed at hf
        rw [hmode] at hf
        exact (hf.resolve_left (hnone n hn)).1
      exact (honly m hm hfm).trans (honly n hn hfn).symm
    · rw [counted_iff_posted hmode hpos hp h hlast]
      exact ⟨fun hone _ => ⟨hone, fun hf => absurd hf hlast⟩, fun hone => (hone hmode).1⟩

end

end

/-! ## Both calls -/

/-- **Failure counts.** `send_and_wait_requests` counts the requests that failed exactly if nobody
misses a completion: in throughput mode it takes one. `recv_requests` does exactly if no request of
the call failed at both places. -/
theorem failureCounts_iff (requests : List DccsRequest) (params : DccsParameters) :
    (∀ (inError : Nat → Prop) [DecidablePred inError] rv requests' w,
      Reach answering (sendAndWaitRequests requests params) {} (.ret (rv, requests')) w →
      OldestTaken requests params inError w →
      (FailuresCounted params.count (SendFailed requests params inError w) rv ↔
        OneInError requests params inError w)) ∧
    ∀ rv w, Reach answering (recvRequests requests params) {} (.ret rv) w →
      (FailuresCounted params.count (RecvFailed w) rv ↔
      ∀ n < params.count, ¬ (w.PostFailed n ∧ w.CompletionFailed n)) := by
  constructor
  · intro inError _ rv requests' w hreach holdest
    obtain ⟨hrv, hwaited⟩ := sendAndWaitRequests_failed hreach
    rw [failuresCounted_iff, hrv, ← counted_iff hwaited holdest]
    omega
  · intro rv w hreach
    have hsum := count_or_add_count_and w.PostFailed w.CompletionFailed params.count
    have hdistinct : Nat.count (RecvFailed w) params.count =
        Nat.count (fun n => w.PostFailed n ∨ w.CompletionFailed n) params.count :=
          count_congr fun _ _ => Iff.rfl
    have htwice : Nat.count (fun n => w.PostFailed n ∧ w.CompletionFailed n) params.count = 0 ↔
        ∀ n < params.count, ¬ (w.PostFailed n ∧ w.CompletionFailed n) := Nat.count_iff_forall_not
    rw [failuresCounted_iff, recvRequests_failed hreach, ← htwice, hsum, hdistinct]
    omega

/-- Three requests, and one wait for all of them. -/
def threeSends : DccsParameters := { oneSend with count := 3, mode := .throughput }

def plainSends (n : Nat) : List DccsRequest := List.replicate n { verb := .Send }

/-- All three are posted, and the one poll brings an error. -/
theorem reach_threeSends : ∃ requests', Reach answering (sendAndWaitRequests (plainSends 3) threeSends)
    {} (.ret (-1, requests')) ⟨[0, 0, 0], [.got .bad []]⟩ :=
  ⟨_, .call (0 : UInt64) trivial (.call (0 : Int) trivial (.call (0 : UInt64) trivial
    (.call (0 : Int) trivial (.call (0 : UInt64) trivial
    (.call (0 : Int) trivial (.call (0 : UInt64) trivial
    (.call (Poll.got .bad []) Nat.le.refl (.call () trivial (.call (0 : UInt64) trivial
    (.call (0 : UInt64) trivial (.refl _ _)))))))))))⟩

/-- The last of three requests completes with an error; so does the second of two receives. -/
theorem failureCounts_iff_threeSends :
    (∃ requests' w, Reach answering (sendAndWaitRequests (plainSends 3) threeSends) {}
      (.ret (-1, requests')) w ∧
      FailuresCounted 3 (SendFailed (plainSends 3) threeSends (fun n => n = 2) w) (-1)) ∧
    ∃ w, Reach answering (recvRequests (plainSends 2) { oneSend with count := 2 }) {} (.ret (-1)) w ∧
      FailuresCounted 2 (RecvFailed w) (-1) := by
  have hrecv : Reach answering (recvRequests (plainSends 2) { oneSend with count := 2 }) {} (.ret (-1))
      ⟨[0, 0], [.got .good [], .got .bad []]⟩ :=
    .call (0 : Int) trivial (.call (Poll.got .good []) Nat.le.refl (.call (0 : Int) trivial
      (.call (Poll.got .bad []) Nat.le.refl (.call () trivial (.call () trivial (.refl _ _))))))
  obtain ⟨requests', hsend⟩ := reach_threeSends
  refine ⟨⟨_, _, hsend, ((failureCounts_iff (plainSends 3) threeSends).1 (fun n => n = 2) _ _ _ hsend ?_).2 ?_⟩,
    _, hrecv, ((failureCounts_iff (plainSends 2) { oneSend with count := 2 }).2 _ _ hrecv).2 (by decide)⟩
  · intro _ wc rest hgot
    cases hgot
    decide
  · intro _
    decide

/-- All three requests complete with an error, and one is counted. The one receive is refused, the
poll fails as well, and the request is counted twice. -/
theorem failureCounts_counterexample :
    (∃ requests' w, Reach answering (sendAndWaitRequests (plainSends 3) threeSends) {}
      (.ret (-1, requests')) w ∧ OldestTaken (plainSends 3) threeSends (fun _ => True) w ∧
      ¬ FailuresCounted 3 (SendFailed (plainSends 3) threeSends (fun _ => True) w) (-1)) ∧
    ∃ w, Reach answering (recvRequests (plainSends 1) oneSend) {} (.ret (-2)) w ∧
      ¬ FailuresCounted 1 (RecvFailed w) (-2) := by
  have hrecv : Reach answering (recvRequests (plainSends 1) oneSend) {} (.ret (-2)) ⟨[-1], [.failed]⟩ :=
    .call (-1 : Int) trivial
      (.call () trivial (.call () trivial (.call Poll.failed (Nat.zero_le 1) (.call () trivial
      (.call () trivial (.refl _ _))))))
  obtain ⟨requests', hsend⟩ := reach_threeSends
  refine ⟨⟨_, _, hsend, fun _ wc rest hgot => ?_, fun h => ?_⟩, _, hrecv, fun h => ?_⟩
  · cases hgot
    decide
  · have hdistinct := h.distinct
    revert hdistinct
    decide
  · have hlower := h.lower
    revert hlower
    decide

end RdmaOpera
