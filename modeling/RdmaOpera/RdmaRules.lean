import RdmaOpera.Rdma

/-!
# Proof rules for the wrapper library

For a monitor that takes no notice of error messages (`Quiet`), each wrapper of `dccs_rdma.h` is
reasoned about through the library calls it makes: one rule for each wrapper, which its callers use
in place of its body.
-/

namespace RdmaOpera

open Lib Prog

/-- The monitor allows error messages and its state ignores them. -/
structure Quiet {σ : Type} (m : Monitor Verbs σ) (ok : σ → VOp → Prop) : Prop where
  okLog : ∀ s format, ok s (.logError format)
  updLog : ∀ s format (u : Unit), m.upd s (.logError format) u = s

/-- The return value of the completion wrappers for one poll. -/
def Poll.rv : Poll → Int
  | .failed => -1
  | .got wc rest => if ∀ w ∈ wc :: rest, w.success then (1 + rest.length : Nat) else -1

theorem Poll.rv_ne_zero (p : Poll) : p.rv ≠ 0 := by
  cases p with
  | failed => simp [rv]
  | got wc rest => simp only [rv]; split <;> omega

/-- The wrappers report success exactly when every entry polled is successful. -/
theorem Poll.rv_nonneg {p : Poll} : 0 ≤ p.rv ↔ p ≠ .failed ∧ ∀ w ∈ p.wcs, w.success := by
  cases p with
  | failed => simp [rv]
  | got wc rest =>
    simp only [rv, wcs]
    split
    · rename_i h; simp only [ne_eq, reduceCtorEq, not_false_eq_true, true_and]
      exact ⟨fun _ => h, fun _ => by omega⟩
    · rename_i h; simp only [ne_eq, reduceCtorEq, not_false_eq_true, true_and]
      exact ⟨fun h' => by omega, fun h' => absurd h' h⟩

theorem Poll.rv_one_good {wc : Wc} (h : wc.success) : (Poll.got wc []).rv = 1 := by simp [rv, h]

theorem Poll.rv_one_bad {wc : Wc} (h : ¬ wc.success) : (Poll.got wc []).rv = -1 := by simp [rv, h]

section
variable {σ α : Type} {m : Monitor Verbs σ} {ok : σ → VOp → Prop} {s : σ}

namespace Quiet

variable (hq : Quiet m ok)
include hq

theorem logError {format : String} {Q : Unit → σ → Prop} (h : Q () s) :
    Safe m ok (Call.logError format) s Q := by
  refine ⟨hq.okLog _ _, fun u _ => ?_⟩
  show Q u (m.upd s _ u)
  rw [hq.updLog]; exact h

/-- A message, then the rest. -/
theorem logError_bind {format : String} {p : Unit → VProg α} {Q : α → σ → Prop}
    (h : Safe m ok (p ()) s Q) :
    Safe m ok (Call.logError format >>= p) s Q := safe_bind.2 (hq.logError h)

theorem orPerror {call : VProg Int} {text : String} {Q : Int → σ → Prop} (h : Safe m ok call s Q) :
    Safe m ok (RdmaOpera.orPerror call text) s Q := by
  refine Safe.bind h fun rv t hQ => ?_
  exact safe_ite.2 ⟨fun _ => hq.logError_bind hQ, fun _ => hQ⟩

theorem dccsRegMr {access : Access} {p : Ptr} {len : Nat} {Q : Option Mr → σ → Prop}
    (hok : ok s (.regMr access p len))
    (h : ∀ a : Option Mr, m.adm s (.regMr access p len) a → Q a (m.upd s (.regMr access p len) a)) :
    Safe m ok (RdmaOpera.dccsRegMr access p len) s Q := by
  refine safe_bind.2 ⟨hok, fun a ha => ?_⟩
  cases a with
  | none => exact hq.logError_bind (h none ha)
  | some mr => exact h (some mr) ha

theorem dccsRdmaPost {wr : SendWr} {Q : Int → σ → Prop} (hok : ok s (.postSend wr))
    (h : ∀ rv : Int, m.adm s (.postSend wr) rv → Q rv (m.upd s (.postSend wr) rv)) :
    Safe m ok (RdmaOpera.dccsRdmaPost wr) s Q := hq.orPerror ⟨hok, h⟩

theorem dccsRdmaRecv {p : Ptr} {len : Nat} {mr : Option Mr} {Q : Int → σ → Prop}
    (hok : ok s (.postRecv ⟨p.addr, len, mr⟩))
    (h : ∀ rv : Int, m.adm s (.postRecv ⟨p.addr, len, mr⟩) rv →
      Q rv (m.upd s (.postRecv ⟨p.addr, len, mr⟩) rv)) :
    Safe m ok (RdmaOpera.dccsRdmaRecv p len mr) s Q := hq.orPerror ⟨hok, h⟩

theorem dccsRdmaSendComp_one {Q : Int → σ → Prop} (hok : ok s (.pollSend 1))
    (h : ∀ p : Poll, m.adm s (.pollSend 1) p → Q p.rv (m.upd s (.pollSend 1) p)) :
    Safe m ok (RdmaOpera.dccsRdmaSendComp 1) s Q := by
  refine safe_bind.2 (safe_bind.2 ⟨hok, fun p hp => ?_⟩)
  have hQ := h p hp
  cases p with
  | failed => exact hq.logError_bind hQ
  | got wc rest =>
    refine safe_ite.2 ⟨fun hs => ?_, fun hs => hq.logError_bind ?_⟩
    · simp only [Poll.rv, if_pos hs] at hQ
      simpa [sendCompFrom, Nat.add_comm] using hQ
    · simp only [Poll.rv, if_neg hs] at hQ
      exact hQ

/-- The completion loop: `I` holds of the entries stored so far whenever the queue is polled. -/
theorem sendCompFrom {num : Int} (I : List Wc → σ → Prop) {Q : Int × List Wc → σ → Prop}
    (hpoll : ∀ wcArr t, (wcArr.length : Int) < num → I wcArr t → ok t (.pollSend num.toNat) ∧
      ∀ p : Poll, m.adm t (.pollSend num.toNat) p →
        if 0 ≤ p.rv then I (wcArr ++ p.wcs) (m.upd t (.pollSend num.toNat) p)
        else Q (-1, wcArr ++ p.wcs) (m.upd t (.pollSend num.toNat) p))
    (hdone : ∀ wcArr t, num ≤ wcArr.length → I wcArr t → Q (wcArr.length, wcArr) t) :
    ∀ (fuel : Nat) (wcArr : List Wc) (s : σ), num ≤ wcArr.length + fuel → I wcArr s →
      Safe m ok (RdmaOpera.sendCompFrom num fuel wcArr) s Q := by
  intro fuel
  induction fuel with
  | zero =>
    intro wcArr s hfuel hI
    exact hdone wcArr s (by omega) hI
  | succ fuel ih =>
    intro wcArr s hfuel hI
    refine safe_ite.2 ⟨fun hlt => ?_, fun hge => hdone wcArr s (by omega) hI⟩
    obtain ⟨hok, hans⟩ := hpoll wcArr s hlt hI
    refine safe_bind.2 ⟨hok, fun p hp => ?_⟩
    have hnext := hans p hp
    cases p with
    | failed =>
      rw [if_neg (show ¬ 0 ≤ Poll.failed.rv by simp [Poll.rv]), Poll.wcs, List.append_nil] at hnext
      exact hq.logError_bind hnext
    | got wc rest =>
      have hgot : Poll.got wc rest ≠ .failed := by simp
      have hrv : 0 ≤ (Poll.got wc rest).rv ↔ ∀ w ∈ wc :: rest, w.success :=
        Poll.rv_nonneg.trans (and_iff_right hgot)
      refine safe_ite.2 ⟨fun hgood => ?_, fun hbad => hq.logError_bind ?_⟩
      · rw [if_pos (hrv.2 hgood)] at hnext
        refine ih _ _ ?_ hnext
        rw [List.length_append, List.length_cons]
        omega
      · rw [if_neg fun h => hbad (hrv.1 h)] at hnext
        exact hnext

/-- A poll of the receive queue takes one entry. -/
theorem dccsRdmaRecvComp {Q : Int → σ → Prop} (hok : ok s .pollRecv)
    (hone : ∀ wc rest, m.adm s .pollRecv (.got wc rest) → rest = [])
    (h : ∀ p : Poll, m.adm s .pollRecv p → Q p.rv (m.upd s .pollRecv p)) :
    Safe m ok RdmaOpera.dccsRdmaRecvComp s Q := by
  refine safe_bind.2 ⟨hok, fun p hp => ?_⟩
  have hQ := h p hp
  cases p with
  | failed => exact hq.logError_bind hQ
  | got wc rest =>
    obtain rfl := hone wc rest hp
    refine safe_ite.2 ⟨fun hs => ?_, fun hs => hq.logError_bind ?_⟩
    · simpa [Poll.rv, hs] using hQ
    · simpa [Poll.rv, hs] using hQ

end Quiet

theorem safe_whileZero {comp : VProg Int} {Q : Int → σ → Prop}
    (h : Safe m ok comp s fun rv t => rv ≠ 0 ∧ Q rv t) : Safe m ok (whileZero comp) s Q := by
  refine Safe.bind h fun rv t hQ => ?_
  rw [if_neg hQ.1]
  exact hQ.2

namespace Quiet

variable (hq : Quiet m ok)
include hq

/-- The wait for `num` completions; a loop that stores none is never left. -/
theorem whileSendComp {num : Int} (hspins : m.spins) (I : List Wc → σ → Prop) {Q : Int → σ → Prop}
    (hpoll : ∀ wcArr t, (wcArr.length : Int) < num → I wcArr t → ok t (.pollSend num.toNat) ∧
      ∀ p : Poll, m.adm t (.pollSend num.toNat) p →
      if 0 ≤ p.rv then I (wcArr ++ p.wcs) (m.upd t (.pollSend num.toNat) p) else Q (-1)
      (m.upd t (.pollSend num.toNat) p))
    (hdone : ∀ wcArr t, num ≤ wcArr.length → wcArr ≠ [] → I wcArr t → Q wcArr.length t)
    (hI : I [] s) :
    Safe m ok (whileZero (RdmaOpera.dccsRdmaSendComp num)) s Q := by
  have hloop : Safe m ok (RdmaOpera.sendCompFrom num num.toNat []) s fun r t =>
    r.1 ≠ 0 → Q r.1 t := by
    refine hq.sendCompFrom I (fun wcArr t hlt hI => ?_) (fun wcArr t hge hI hne => ?_) _ [] s (by simp) hI
    · obtain ⟨hok, hans⟩ := hpoll wcArr t hlt hI
      refine ⟨hok, fun p hp => ?_⟩
      have hnext := hans p hp
      by_cases hrv : 0 ≤ p.rv
      · rw [if_pos hrv] at hnext ⊢
        exact hnext
      · rw [if_neg hrv] at hnext ⊢
        exact fun _ => hnext
    · refine hdone wcArr t hge (fun hnil => hne ?_) hI
      rw [hnil]
      rfl
  have hcomp : Safe m ok (RdmaOpera.dccsRdmaSendComp num) s fun rv t => rv ≠ 0 → Q rv t :=
    hloop.bind fun _ _ hr => hr
  exact hcomp.bind fun rv t hrv => safe_ite.2 ⟨fun _ => hspins, hrv⟩

/-- A post, and, if it was accepted, the wait for its completion. -/
theorem waitStep {post comp : VProg Int} {e₁ e₂ : String} {Q : Int × Bool → σ → Prop}
    (h : Safe m ok post s fun rv t => (rv ≠ 0 → Q (rv, false) t) ∧
      (rv = 0 → Safe m ok comp t fun rv u => rv ≠ 0 ∧ Q (rv, decide (0 ≤ rv)) u)) :
    Safe m ok (RdmaOpera.waitStep post comp e₁ e₂) s Q := by
  refine Safe.bind h fun rv t hrv =>
    safe_ite.2 ⟨fun hne => hq.logError_bind (hrv.1 hne), fun h0 => ?_⟩
  refine Safe.bind (safe_whileZero (hrv.2 (not_not.1 h0))) fun rv u hQ =>
    safe_ite.2 ⟨fun hneg => hq.logError_bind ?_, fun hneg => ?_⟩
  · rw [decide_eq_false (not_le.2 hneg)] at hQ
    exact hQ
  · rw [decide_eq_true (not_lt.1 hneg)] at hQ
    exact hQ

/-- A message sent and waited for: the post, and, if it was accepted, one poll. -/
theorem sendStep {p : Ptr} {len : Nat} {mr : Option Mr} {e₁ e₂ : String} {Q : Int × Bool → σ → Prop}
    (hok : ok s (.postSend ⟨.Send, p.addr, len, mr, 0, 0, true⟩))
    (hfail : ∀ rv : Int, rv ≠ 0 → m.adm s (.postSend ⟨.Send, p.addr, len, mr, 0, 0, true⟩) rv →
      Q (rv, false) (m.upd s (.postSend ⟨.Send, p.addr, len, mr, 0, 0, true⟩) rv))
    (hposted : m.adm s (.postSend ⟨.Send, p.addr, len, mr, 0, 0, true⟩) (0 : Int) →
      let t := m.upd s (.postSend ⟨.Send, p.addr, len, mr, 0, 0, true⟩) (0 : Int)
      ok t (.pollSend 1) ∧ ∀ a : Poll, m.adm t (.pollSend 1) a →
        Q (a.rv, decide (0 ≤ a.rv)) (m.upd t (.pollSend 1) a)) :
    Safe m ok (RdmaOpera.sendStep p len mr e₁ e₂) s Q := by
  rw [sendStep_eq]
  refine hq.waitStep (hq.dccsRdmaPost hok fun rv hrv => ⟨fun hne => hfail rv hne hrv, ?_⟩)
  rintro rfl
  obtain ⟨hok', hpoll⟩ := hposted hrv
  exact hq.dccsRdmaSendComp_one hok' fun a ha => ⟨a.rv_ne_zero, hpoll a ha⟩

/-- A message waited for: the receive posted, and, if it was accepted, one poll. -/
theorem recvStep {p : Ptr} {len : Nat} {mr : Option Mr} {e₁ e₂ : String} {Q : Int × Bool → σ → Prop}
    (hone : ∀ t wc rest, m.adm t .pollRecv (.got wc rest) → rest = [])
    (hok : ok s (.postRecv ⟨p.addr, len, mr⟩))
    (hfail : ∀ rv : Int, rv ≠ 0 → m.adm s (.postRecv ⟨p.addr, len, mr⟩) rv →
      Q (rv, false) (m.upd s (.postRecv ⟨p.addr, len, mr⟩) rv))
    (hposted : m.adm s (.postRecv ⟨p.addr, len, mr⟩) (0 : Int) →
      let t := m.upd s (.postRecv ⟨p.addr, len, mr⟩) (0 : Int)
      ok t .pollRecv ∧ ∀ a : Poll, m.adm t .pollRecv a →
        Q (a.rv, decide (0 ≤ a.rv)) (m.upd t .pollRecv a)) :
    Safe m ok (RdmaOpera.recvStep p len mr e₁ e₂) s Q := by
  rw [recvStep_eq]
  refine hq.waitStep (hq.dccsRdmaRecv hok fun rv hrv => ⟨fun hne => hfail rv hne hrv, ?_⟩)
  rintro rfl
  obtain ⟨hok', hpoll⟩ := hposted hrv
  exact hq.dccsRdmaRecvComp hok' (hone _) fun a ha => ⟨a.rv_ne_zero, hpoll a ha⟩

end Quiet

end

end RdmaOpera
