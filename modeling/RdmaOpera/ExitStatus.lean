import RdmaOpera.Success

/-!
# The exit status of `rdma_exec`

| here | there |
| --- | --- |
| `StepsSucceeded`             | the conventions of the calls: `0`, not `NULL`, a successful completion |
| `ExitStatusSound`             | what `main` returns to the shell (`rdma_main.c:161-169`) |

`run` returns its variable `rv`. After the end message that is what the completion call returned:
the number of completions, which is 1. So the value is never 0 (`run_ne_zero`), and a run in which
nothing fails exists for every parameter set that fits in memory (`exists_run_succeeded`).
-/

namespace RdmaOpera.RdmaExec

open Lib Prog

/-- Nothing the program asked for failed, and it had no error to report. -/
def StepsSucceeded (tr : List (Event Verbs)) : Prop := ∀ e ∈ tr, Succeeded e.op e.ans

/-- The value returned is 0 if, and only if, everything succeeded. -/
def ExitStatusSound (tr : List (Event Verbs)) (v : Int) : Prop := v = 0 ↔ StepsSucceeded tr

/-! ## No run returns 0 -/

/-- The monitor that expects nothing of the answers. -/
abbrev anyRun : Monitor Verbs (List (Event Verbs)) := .trace (fun _ => True) True

abbrev Always {α : Type} (p : VProg α) (tr : List (Event Verbs)) (Q : α → Prop) : Prop :=
  Safe anyRun (fun _ _ => True) p tr fun a _ => Q a

/-- Sequencing after a program whose result does not matter. -/
theorem always_any {α β : Type} {p : VProg α} {f : α → VProg β} {tr : List (Event Verbs)}
    {Q : β → Prop} (hf : ∀ a tr', Always (f a) tr' Q) : Always (p >>= f) tr Q :=
  safe_bind_any (fun _ _ => trivial) trivial hf

/-- The value of `rv` as the label is reached. -/
def Exit.rv : Exit → Int
  | .end_ rv | .outDisconnect rv | .outDeallocateBuffer _ rv | .ended _ rv => rv

theorem always_whileZero (comp : VProg Int) (tr : List (Event Verbs)) :
    Always (whileZero comp) tr (· ≠ 0) := by
  refine always_any fun rv tr' => safe_ite.2 ⟨fun _ => trivial, fun h => h⟩

theorem always_waitStep {post comp : VProg Int} {e₁ e₂ : String} {tr : List (Event Verbs)} :
    Always (waitStep post comp e₁ e₂) tr fun r => r.1 ≠ 0 := by
  refine always_any fun rv tr' => safe_ite.2 ⟨fun h => always_any fun _ _ => h, fun _ => ?_⟩
  refine Safe.bind (always_whileZero _ _) fun rv tr' hrv => ?_
  exact safe_ite.2 ⟨fun _ => always_any fun _ _ => hrv, fun _ => hrv⟩

theorem always_sendMessage (buf : Ptr) (length : Nat) (tr : List (Event Verbs)) :
    Always (sendMessage buf length) tr (· ≠ 0) := by
  refine always_any fun mr tr' => ?_
  cases mr with
  | none => exact (by decide : (-1 : Int) ≠ 0)
  | some mr => exact Safe.bind always_waitStep fun _ _ h => always_any fun _ _ => h

theorem always_recvMessage (buf : Ptr) (length : Nat) (tr : List (Event Verbs)) :
    Always (recvMessage buf length) tr (· ≠ 0) := by
  refine always_any fun mr tr' => ?_
  cases mr with
  | none => exact (by decide : (-1 : Int) ≠ 0)
  | some mr => exact Safe.bind always_waitStep fun _ _ h => always_any fun _ _ => h

theorem always_endMessage (params : DccsParameters) (tr : List (Event Verbs)) :
    Always (endMessage params) tr (· ≠ 0) := by
  unfold endMessage
  cases roleOf params with
  | client =>
    refine always_any fun buf tr' => Safe.bind (always_sendMessage _ _ _) fun rv tr' hrv => ?_
    exact safe_ite.2 ⟨fun _ => always_any fun _ _ => always_any fun _ _ => hrv,
      fun _ => always_any fun _ _ => hrv⟩
  | server =>
    refine always_any fun buf tr' => Safe.bind (always_recvMessage _ _ _) fun rv tr' hrv => ?_
    exact safe_ite.2 ⟨fun _ => always_any fun _ _ => always_any fun _ _ => hrv,
      fun _ => always_any fun _ _ => hrv⟩

theorem always_untilEnd (o : ByteOrder) (params : DccsParameters) (tr : List (Event Verbs)) :
    Always (untilEnd o params) tr fun exit => exit.rv ≠ 0 := by
  refine always_any fun rv tr' =>
    safe_ite.2 ⟨fun h => h, fun _ => safe_ite.2 ⟨fun _ => trivial, fun _ => ?_⟩⟩
  refine always_any fun r tr' => safe_ite.2 ⟨fun h => always_any fun _ _ => h, fun _ => ?_⟩
  refine always_any fun r tr' => safe_ite.2 ⟨fun h => (show r.1 ≠ 0 by omega), fun _ => ?_⟩
  refine always_any fun requests tr' => Safe.bind (always_endMessage params tr')
    fun rv tr' hrv => ?_
  exact safe_ite.2 ⟨fun _ => hrv, fun _ => hrv⟩

theorem always_outDisconnect (params : DccsParameters) (rv : Int) (tr : List (Event Verbs)) :
    Always (outDisconnect params rv) tr (· = rv) := by
  unfold outDisconnect
  cases roleOf params <;> exact always_any fun _ _ => rfl

theorem always_finish (params : DccsParameters) (exit : Exit) (tr : List (Event Verbs)) :
    Always (finish params exit) tr (· = exit.rv) := by
  cases exit with
  | end_ rv => exact (rfl : rv = rv)
  | outDisconnect rv => exact always_outDisconnect params rv tr
  | outDeallocateBuffer requests rv =>
    exact always_any fun _ tr' => always_outDisconnect params rv tr'
  | ended requests rv =>
    exact always_any fun _ _ => always_any fun _ tr' => always_outDisconnect params rv tr'

/-- However a run is left, it is left with a value other than 0. -/
theorem run_ne_zero {o : ByteOrder} {params : DccsParameters} {tr : List (Event Verbs)} {v : Int}
    (h : Returns (run o params) tr v) : v ≠ 0 := by
  refine h.of_safe (Q := (· ≠ 0)) (Safe.bind (always_untilEnd o params []) fun exit tr' hne => ?_)
  exact (always_finish params exit tr').mono fun v _ hv => hv ▸ hne


/-! ## A run in which everything succeeds -/

/-- Every accepted parameter set whose request array fits in memory has a run in which nothing
fails. -/
theorem exists_run_succeeded (o : ByteOrder) {params : DccsParameters} (h : Accepted params)
    (hc : params.count * requestSize < 2 ^ 64) :
    ∃ tr, StepsSucceeded tr ∧ Returns (run o params) tr 1 := by
  have hm : Lucky o params.count (.trace (Plain o params.count) False) := fun _ _ _ h => h
  have hsafe : Ends (.trace (Plain o params.count) False) (run o params) [] (· = 1) := by
    refine Safe.bind (hm.untilEnd h hc) fun exit tr hexit => ?_
    obtain ⟨requests, rfl, hr⟩ := hexit
    exact Lucky.finish h hr
  obtain ⟨v, tr, hreach, rfl⟩ := hsafe.returns (fun hf => hf) fun tr op =>
    exists_plain o params.count op
  have hplain := hreach.trace_adm (by simp)
  exact ⟨tr, fun e he => (hplain e he).1, hreach.trace_mono fun _ _ => trivial⟩

/-- **Exit status.** Exactly the runs in which something failed are reported as they should be: a
run in which everything succeeded, and every accepted parameter set has one, returns the 1 that
`dccs_rdma_send_comp` counted for the end message. -/
theorem exitStatusSound_iff (o : ByteOrder) {params : DccsParameters} (h : Accepted params) :
    (∀ tr v, Returns (run o params) tr v → (ExitStatusSound tr v ↔ ¬ StepsSucceeded tr)) ∧
      (params.count * requestSize < 2 ^ 64 → ∃ tr, StepsSucceeded tr ∧
      Returns (run o params) tr 1) := by
  refine ⟨fun tr v hret => ?_, exists_run_succeeded o h⟩
  have hv := run_ne_zero hret
  unfold ExitStatusSound
  tauto

theorem exitStatusSound_iff_oneSend :
    ∃ tr, StepsSucceeded tr ∧ Returns (run .little oneSend) tr 1 :=
  (exitStatusSound_iff .little accepted_oneSend).2 (by decide)

theorem exitStatus_counterexample :
    Accepted oneSend ∧ ¬ ∀ tr v, Returns (run .little oneSend) tr v → ExitStatusSound tr v := by
  refine ⟨accepted_oneSend, fun hall => ?_⟩
  obtain ⟨tr, hs, hret⟩ := exists_run_succeeded .little accepted_oneSend (by decide)
  exact absurd ((hall tr 1 hret).2 hs) (by decide)

end RdmaOpera.RdmaExec
