import RdmaOpera.ControlMain
import RdmaOpera.RdmaRules

/-!
# The rounds of a control server

A round that loses a write still waits for `params.count` completions: the inner loop is left by
`break`, and the wait below it overwrites `rv` (`control_main.c:158-189`).
-/

namespace RdmaOpera.ControlExec

open Lib Prog

/-- The write of turn `i` of a round. -/
def roundWrite (request : DccsRequest) : SendWr :=
  { verb := .Write, addr := request.buf.addr, len := request.length, mr := request.mr,
    raddr := request.remoteAddr, rkey := request.remoteRkey, signaled := true }

/-- A turn of the inner loop reads the clock and posts a write, unless the loop has been left. -/
theorem safe_postOne_of_quiet {σ : Type} {m : Monitor Verbs σ} {ok : σ → VOp → Prop}
    (hq : Quiet m ok) {requestsOut : List DccsRequest} {n i : Nat} {s : RoundState × Bool} {w : σ}
    {Q : RoundState × Bool → σ → Prop} (hleft : s.2 = true → Q s w)
    (hpost : s.2 = false → ok w .getCycles ∧ ∀ now : UInt64, m.adm w .getCycles now →
      ok (m.upd w .getCycles now) (.postSend (roundWrite (reqAt requestsOut i))) ∧ ∀ rv : Int,
      m.adm (m.upd w .getCycles now) (.postSend (roundWrite (reqAt requestsOut i))) rv →
      Q ({ s.1 with start := s.1.start.set n now }, decide (rv ≠ 0))
      (m.upd (m.upd w .getCycles now) (.postSend (roundWrite (reqAt requestsOut i))) rv)) :
    Safe m ok (postOne requestsOut n i s) w Q := by
  refine safe_ite.2 ⟨hleft, fun hs => ?_⟩
  obtain ⟨hread, hnow⟩ := hpost (Bool.eq_false_of_not_eq_true hs)
  refine safe_bind.2 ⟨hread, fun now ha => ?_⟩
  obtain ⟨hok, hrv⟩ := hnow now ha
  refine safe_bind.2 (hq.dccsRdmaPost hok fun rv hadm => ?_)
  have hQ := hrv rv hadm
  refine safe_ite.2 ⟨fun hne => hq.logError_bind ?_, fun heq => ?_⟩
  · rwa [decide_eq_true hne] at hQ
  · rwa [decide_eq_false heq] at hQ

/-- The signaled writes of a round and their completions. -/
structure RoundLedger where
  /-- accepted, in any round, and not completed yet -/
  owed : Nat := 0
  /-- accepted in this round -/
  posted : Nat := 0
  /-- completions taken in this round -/
  taken : Nat := 0
  /-- a post of this round was refused -/
  refused : Bool := false

/-- A poll gives what is owed, and no more than it is asked for. -/
def accounting : Monitor Verbs RoundLedger where
  upd w
    | .waitUntil _, _ => { owed := w.owed }
    | .postSend wr, (rv : Int) =>
      if rv ≠ 0 then { w with refused := true }
      else if wr.signaled then { w with owed := w.owed + 1, posted := w.posted + 1 }
      else w
    | .pollSend _, (p : Poll) =>
      { w with owed := w.owed - p.wcs.length, taken := w.taken + p.wcs.length }
    | _, _ => w
  adm w
    | .pollSend num, (p : Poll) => p.wcs.length ≤ num ∧ p.wcs.length ≤ w.owed
    | _, _ => True
  spins := True

/-- Writes of this round that are not completed; they complete in the order in which they were
posted. -/
def RoundLedger.remaining (w : RoundLedger) : Nat := min w.posted w.owed

/-- A wait for `num` completions is for those that are still to come, and one is. -/
structure RoundAccounted (num : Nat) (w : RoundLedger) : Prop where
  exact : num = w.taken + w.remaining
  comes : 0 < w.remaining

/-- An `int` holds every count up to `INT_MAX`; beyond it the wait is for less than was posted. -/
structure Waits (count num : Nat) (w : RoundLedger) : Prop where
  fits : count < 2 ^ 31 → (RoundAccounted num w ↔ w.refused = false)
  wraps : 2 ^ 31 ≤ count → w.refused = false → w.taken = 0 → ¬ RoundAccounted num w

def waitsOk (count : Nat) (w : RoundLedger) : VOp → Prop
  | .pollSend num => Waits count num w
  | _ => True

theorem quiet_accounting (count : Nat) : Quiet accounting (waitsOk count) :=
  ⟨fun _ _ => trivial, fun _ _ _ => rfl⟩

section
variable {requestsOut : List DccsRequest} {params : DccsParameters}

/-! ## The posts of a round -/

/-- Before turn `i` of the inner loop, with `left` completions left over from earlier rounds. -/
structure Posting (left i : Nat) (failed : Bool) (w : RoundLedger) : Prop where
  owed : w.owed = left + w.posted
  taken : w.taken = 0
  refused : w.refused = failed
  posted : if failed then w.posted < i else w.posted = i

theorem safe_postOne {left n i : Nat} {s : RoundState × Bool} {w : RoundLedger}
    (h : Posting left i s.2 w) :
    Safe accounting (waitsOk params.count) (postOne requestsOut n i s) w fun s' w' =>
      Posting left (i + 1) s'.2 w' := by
  obtain ⟨howed, htaken, hrefused, hposted⟩ := h
  refine safe_postOne_of_quiet (quiet_accounting _) (fun hs => ⟨howed, htaken, hrefused, ?_⟩)
    fun hs => ⟨trivial, fun now _ => ⟨trivial, fun rv _ => ?_⟩⟩
  · rw [hs, if_pos rfl] at hposted ⊢
    omega
  · rw [hs, if_neg Bool.false_ne_true] at hposted
    subst hposted
    show Posting left (w.posted + 1) (decide (rv ≠ 0)) (if rv ≠ 0 then { w with refused := true }
      else { w with owed := w.owed + 1, posted := w.posted + 1 })
    by_cases hrv : rv ≠ 0
    · rw [if_pos hrv, decide_eq_true hrv]
      exact ⟨howed, htaken, rfl, Nat.lt_succ_self _⟩
    · rw [if_neg hrv, decide_eq_false hrv]
      exact ⟨by rw [howed, Nat.add_assoc], htaken, hrefused.trans hs, rfl⟩

/-! ## The wait -/

/-- After `done` completions of the wait that follows. -/
structure Waiting (count left accepted done : Nat) (w : RoundLedger) : Prop where
  posted : w.posted = accepted
  taken : w.taken = done
  owed : w.owed + done = left + accepted
  refused : if w.refused then accepted < count else accepted = count

theorem Posting.waiting {count left : Nat} {failed : Bool} {w : RoundLedger}
    (h : Posting left count failed w) :
    Waiting count left w.posted 0 w := by
  obtain ⟨howed, htaken, hrefused, hposted⟩ := h
  exact ⟨rfl, htaken, howed, by rwa [hrefused]⟩

theorem Waiting.refused_iff {count left accepted done : Nat} {w : RoundLedger}
    (h : Waiting count left accepted done w) :
    accepted ≤ count ∧ (w.refused = false ↔ accepted = count) := by
  have hrefused := h.refused
  cases hr : w.refused with
  | true =>
    rw [hr, if_pos rfl] at hrefused
    exact ⟨hrefused.le, fun h => (nomatch h), fun h => absurd h hrefused.ne⟩
  | false =>
    rw [hr, if_neg Bool.false_ne_true] at hrefused
    exact ⟨hrefused.le, fun _ => hrefused, fun _ => rfl⟩

/-- What a poll finds. -/
theorem Waiting.waits {count left accepted done : Nat} {w : RoundLedger}
    (h : Waiting count left accepted done w) (hleft : count < 2 ^ 31 → left = 0)
    (hlt : (done : Int) < toInt32 count) : Waits count (toInt32 count).toNat w := by
  obtain ⟨hle, hrefused⟩ := h.refused_iff
  obtain ⟨hposted, htaken, howed, -⟩ := h
  refine ⟨fun hfits => ?_, fun hwraps hr h0 haccounted => ?_⟩
  · obtain rfl := hleft hfits
    have hremaining : w.remaining = w.owed := by rw [RoundLedger.remaining]; omega
    rw [toInt32_of_lt hfits] at hlt ⊢
    rw [Int.toNat_natCast, hrefused]
    constructor
    · intro haccounted
      have hexact := haccounted.exact
      omega
    · intro hall
      exact ⟨by omega, by omega⟩
  · have hall := hrefused.1 hr
    have hremaining : w.remaining = count := by rw [RoundLedger.remaining]; omega
    have hexact := haccounted.exact
    have := toInt32_lt count
    omega

theorem safe_wait {left accepted : Nat} {w : RoundLedger}
    (h : Waiting params.count left accepted 0 w) (hleft : params.count < 2 ^ 31 → left = 0) :
    Safe accounting (waitsOk params.count) (whileZero (dccsRdmaSendComp (toInt32 params.count))) w
      fun rv w' =>
      0 ≤ rv → params.count < 2 ^ 31 → w'.owed = 0 := by
  refine (quiet_accounting _).whileSendComp trivial
    (fun wcArr w => Waiting params.count left accepted wcArr.length w)
    (fun wcArr w hlt hw => ⟨hw.waits hleft hlt, fun p hp => ?_⟩) (fun wcArr w hge _ hw _ hfits => ?_) h
  · split
    · obtain ⟨hposted, htaken, howed, hrefused⟩ := hw
      have hpoll : p.wcs.length ≤ w.owed := hp.2
      rw [List.length_append]
      refine ⟨hposted, ?_, ?_, hrefused⟩
      · show w.taken + p.wcs.length = _
        rw [htaken]
      · show w.owed - p.wcs.length + _ = _
        omega
    · exact fun (hneg : (0 : Int) ≤ -1) => by omega
  · obtain ⟨hle, -⟩ := hw.refused_iff
    have howed := hw.owed
    have hnone := hleft hfits
    rw [toInt32_of_lt hfits] at hge
    omega

/-! ## The loop -/

/-- A round that is followed by another one leaves nothing behind. -/
theorem safe_controlRound {n : Nat} {s : RoundState} {w : RoundLedger}
    (h : s.broke = false → params.count < 2 ^ 31 → w.owed = 0) :
    Safe accounting (waitsOk params.count) (controlRound requestsOut params n s) w fun s' w' =>
      s'.broke = false → params.count < 2 ^ 31 → w'.owed = 0 := by
  refine safe_ite.2 ⟨fun _ => h,
    fun hb => safe_ite.2 ⟨fun _ => trivial, fun _ => safe_bind.2 ⟨trivial, fun _ _ => ?_⟩⟩⟩
  have hleft := h (Bool.eq_false_of_not_eq_true hb)
  have hfirst : Posting w.owed 0 false { owed := w.owed } := ⟨rfl, rfl, rfl, rfl⟩
  refine Safe.bind (safe_forN (fun i (s : RoundState × Bool) => Posting w.owed i s.2) hfirst
    fun i s t _ hs => safe_postOne hs)
    fun s t hs => (safe_wait hs.waiting hleft).bind fun rv t' hrv =>
      safe_ite.2 ⟨fun _ => ?_, fun hneg => ?_⟩
  · exact (quiet_accounting _).logError_bind fun hbroke => nomatch hbroke
  · exact safe_bind.2 ⟨trivial, fun _ _ _ => hrv (by omega)⟩

theorem safe_serverRounds :
    Safe accounting (waitsOk params.count) (serverRounds requestsOut params) {} fun s w =>
    s.broke = false → params.count < 2 ^ 31 → w.owed = 0 := by
  refine safe_bind.2 ⟨trivial, fun _ _ => ?_⟩
  exact safe_forN (fun _ (s : RoundState) (w : RoundLedger) => s.broke = false →
    params.count < 2 ^ 31 → w.owed = 0) (fun _ _ => rfl)
    fun n s w _ h => safe_controlRound h

/-- **Control round accounting**: every poll of a round is for what is to come if `count` fits an
`int` and no post of the round was refused, and for something else if one of the two fails. -/
theorem roundAccounted_iff {num : Nat} {k : Poll → VProg RoundState} {w : RoundLedger}
    (h : Reach accounting (serverRounds requestsOut params) {} (.call (.pollSend num) k) w) :
    (params.count < 2 ^ 31 → (RoundAccounted num w ↔ w.refused = false)) ∧
      (2 ^ 31 ≤ params.count → w.refused = false → w.taken = 0 → ¬ RoundAccounted num w) := by
  have hw : Waits params.count num w := (safe_serverRounds.reach h).1
  exact ⟨hw.fits, hw.wraps⟩

/-- A hundred rounds of one write. -/
def hundredRounds : DccsParameters := { oneSend with verb := .Write, repeat_ := 100 }

theorem roundAccounted_iff_hundredRounds : RoundAccounted 1 { owed := 1, posted := 1 } := by
  have hreach : ∃ k, Reach accounting (serverRounds [{}] hundredRounds) {} (.call (.pollSend 1) k)
    { owed := 1, posted := 1 } :=
    ⟨_, .call (0 : UInt64) trivial (.call ([], 100000) trivial (.call (100000 : UInt64) trivial
      (.call (0 : Int) trivial (.refl _ _))))⟩
  obtain ⟨k, hreach⟩ := hreach
  exact ((roundAccounted_iff hreach).1 (by decide)).2 rfl

/-- The write is refused, and its completion waited for. -/
theorem roundAccounted_counterexample :
    ∃ k w, Reach accounting (serverRounds [{}] hundredRounds) {} (.call (.pollSend 1) k) w ∧
    w.owed = 0 ∧ ¬ RoundAccounted 1 w := by
  refine ⟨_, { refused := true },
    .call (0 : UInt64) trivial (.call ([], 100000) trivial (.call (100000 : UInt64) trivial
    (.call (12 : Int) trivial (.call () trivial (.call () trivial (.refl _ _)))))),
      rfl, fun h => ?_⟩
  exact absurd h.comes (by decide)

end

end RdmaOpera.ControlExec
