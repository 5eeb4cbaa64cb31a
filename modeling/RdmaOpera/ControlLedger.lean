import RdmaOpera.ControlMain
import RdmaOpera.Ledger

/-!
# The resource ledger of `control_exec`

| here | there |
| --- | --- |
| `Held`                       | what is held at `out_deallocate_buffer` (`control_main.c:245-257`) |
| `keeps_arrays`               | the two `free`s of a server (`:246-251`) |

A run holds two sets of buffers, the one of `requests_in` below the one of `requests_out`, and a
server has its two arrays of timestamps on top. However far it has got by the time it leaves, all
of it is given back. Only `dccs_connect` keeps something, as in `rdma_exec`.
-/

namespace RdmaOpera

open Lib Prog

namespace ControlExec

open RdmaExec (Resource Ledger ledger Keeps keeps_bind keeps_of_calls AcquiresNothing
  upd_acquiresNothing endpoints holdings Owns roleOf grants grants_adm)

section ledger
variable {o : ByteOrder} {params : DccsParameters} {ins outs : List DccsRequest} {w : Ledger}
  {α : Type}

/-! ## The rounds -/

/-- The calls of a round acquire nothing either. -/
def Turns (op : VOp) : Prop := AcquiresNothing op ∨ ∃ target, op = .waitUntil target

theorem turns_sends : Sends Turns :=
  ⟨fun _ => .inl trivial, fun _ => .inl trivial, .inl trivial, fun _ => .inl trivial⟩

/-- A program that makes no other calls leaves the ledger alone. -/
theorem keeps_of_turns {p : VProg α} (h : Calls Turns p) : Keeps p w fun _ w' => w' = w := by
  refine h.keeps (I := (· = w)) trivial rfl (fun _ _ _ _ => trivial) ?_
  rintro _ op a (hop | ⟨target, rfl⟩) rfl -
  · exact upd_acquiresNothing hop a
  · rfl

theorem turns_getCycles : Calls Turns Call.getCycles := ⟨.inl trivial, fun _ => trivial⟩

theorem turns_waitUntil (target : UInt64) : Calls Turns (Call.waitUntil target) :=
  ⟨.inr ⟨target, rfl⟩, fun _ => trivial⟩

theorem turns_postOne (n i : Nat) (s : RoundState × Bool) : Calls Turns (postOne outs n i s) := by
  refine .ite trivial (turns_getCycles.bind fun now => (turns_sends.dccsRdmaPost _).bind fun rv => ?_)
  exact .ite (calls_logError turns_sends.logError) trivial

theorem turns_controlRound (n : Nat) (s : RoundState) :
    Calls Turns (controlRound outs params n s) := by
  refine .ite trivial (.ite trivial ((turns_waitUntil _).bind fun _ => ?_))
  refine (calls_forN (fun i s => turns_postOne n i s) _ _).bind fun r => ?_
  refine (calls_whileZero (turns_sends.dccsRdmaSendComp _)).bind fun rv => ?_
  exact .ite (calls_logError turns_sends.logError) (turns_getCycles.bind fun _ => trivial)

theorem keeps_serverRounds : Keeps (serverRounds outs params) w fun _ w' => w' = w :=
  keeps_of_turns (turns_getCycles.bind fun _ => calls_forN turns_controlRound _ _)

theorem turns_clientRound (n : Nat) (target : UInt64) : Calls Turns (clientRound params n target) :=
  .ite trivial ((turns_waitUntil _).bind fun _ => trivial)

theorem keeps_clientRounds : Keeps (clientRounds params) w fun _ w' => w' = w :=
  keeps_of_turns (turns_getCycles.bind fun _ => calls_forN turns_clientRound _ _)

/-! ## The packets and the exchange -/

theorem keeps_writePackets : Keeps (writePackets o params outs) w fun _ w' => w' = w := by
  refine safe_forN (fun _ _ w' => w' = w) rfl ?_
  rintro n _ _ - rfl
  unfold writePacket
  cases roleOf params <;> exact ⟨trivial, fun _ _ => ⟨trivial, fun _ _ => rfl⟩⟩

theorem keeps_exchange (role : Role) (count : Nat) :
    Keeps (exchangeMrInfo o role ins outs count) w fun r w' => w' = w ∧ SameBuffers outs r.2 := by
  refine Safe.and ?_ ?_
  · cases role with
    | server =>
      refine Safe.bind (RdmaExec.keeps_getRemoteMrInfo o outs count) ?_
      rintro ⟨rv, outs'⟩ _ rfl
      refine safe_ite.2 ⟨fun _ => safe_bind.2 ⟨trivial, fun _ _ => rfl⟩, fun _ => ?_⟩
      refine Safe.bind (RdmaExec.keeps_sendLocalMrInfo o ins count) ?_
      rintro rv _ rfl
      exact safe_ite.2 ⟨fun _ => safe_bind.2 ⟨trivial, fun _ _ => rfl⟩, fun _ => rfl⟩
    | client =>
      refine Safe.bind (RdmaExec.keeps_sendLocalMrInfo o ins count) ?_
      rintro rv _ rfl
      refine safe_ite.2 ⟨fun _ => safe_bind.2 ⟨trivial, fun _ _ => rfl⟩, fun _ => ?_⟩
      refine Safe.bind (RdmaExec.keeps_getRemoteMrInfo o outs count) ?_
      rintro ⟨rv, outs'⟩ _ rfl
      exact safe_ite.2 ⟨fun _ => safe_bind.2 ⟨trivial, fun _ _ => rfl⟩, fun _ => rfl⟩
  · cases role with
    | server =>
      refine Safe.bind (same_getRemoteMrInfo trivial o count) ?_
      rintro ⟨rv, outs'⟩ w' hs
      refine safe_ite.2 ⟨fun _ => anyhow_bind trivial fun _ _ => hs, fun _ => ?_⟩
      refine anyhow_bind trivial fun rv w' => safe_ite.2 ⟨fun _ => ?_, fun _ => hs⟩
      exact anyhow_bind trivial fun _ _ => hs
    | client =>
      refine anyhow_bind trivial fun rv w' => safe_ite.2 ⟨fun _ => ?_, fun _ => ?_⟩
      · exact anyhow_bind trivial fun _ _ => .refl outs
      · refine Safe.bind (same_getRemoteMrInfo trivial o count) ?_
        rintro ⟨rv, outs'⟩ w' hs
        exact safe_ite.2 ⟨fun _ => anyhow_bind trivial fun _ _ => hs, fun _ => hs⟩

/-! ## The buffers and the arrays -/

/-- Arrays of timestamps, which were granted. -/
def blocks (arrays : List Ptr) : Multiset Resource := ↑(arrays.map Resource.heap)

/-- What is held at the label that gives the buffers back. -/
structure Held (params : DccsParameters) (ins outs : List DccsRequest) (arrays : List Ptr)
    (w : Ledger) : Prop where
  notNull : ∀ p ∈ arrays, p ≠ .null
  buffers : ∃ gs gs', Owns params gs ins ∧ Owns params gs' outs ∧
    w = { held := blocks arrays + (holdings gs + (holdings gs' + endpoints (roleOf params))) }

/-- An array more; the first one is freed first. -/
theorem Held.array {arrays : List Ptr} (h : Held params ins outs arrays w) {p : Ptr} (hp : p ≠ .null) :
    Held params ins outs (arrays ++ [p]) (w.acquire (.heap p)) where
  notNull q hq := by
    rcases List.mem_append.1 hq with hq | hq
    · exact h.notNull q hq
    · rwa [List.mem_singleton.1 hq]
  buffers := by
    obtain ⟨gs, gs', hin, hout, rfl⟩ := h.buffers
    refine ⟨gs, gs', hin, hout, ?_⟩
    have hblocks : blocks (arrays ++ [p]) = .heap p ::ₘ blocks arrays := by
      rw [blocks, List.map_append, ← Multiset.coe_add, add_comm]
      rfl
    rw [hblocks, Multiset.cons_add]
    rfl

theorem keeps_arrays {rest : Multiset Resource} :
    ∀ {arrays : List Ptr}, (∀ p ∈ arrays, p ≠ .null) →
      Keeps (arrays.forM Call.free) { w with held := blocks arrays + rest }
        fun _ w' => w' = { w with held := rest }
  | [], _ => by
    show ({ w with held := 0 + rest } : Ledger) = { w with held := rest }
    rw [zero_add]
  | p :: arrays, h => by
    have hp : p ≠ .null := h p List.mem_cons_self
    have hheld : blocks (p :: arrays) = .heap p ::ₘ blocks arrays := rfl
    rw [hheld, Multiset.cons_add]
    refine ⟨trivial, fun u _ => ?_⟩
    show Keeps (arrays.forM Call.free) (if p = .null then _ else
      Ledger.release { w with held := .heap p ::ₘ (blocks arrays + rest) } (.heap p)) _
    rw [if_neg hp, Ledger.release_cons]
    exact keeps_arrays fun q hq => h q (List.mem_cons_of_mem p hq)

theorem Held.outDeallocateBuffer (h : Accepted params) {arrays : List Ptr}
    (hheld : Held params ins outs arrays w) (rv : Int) :
    Keeps (outDeallocateBuffer ins outs arrays params rv) w fun _ w' => w' = {} := by
  obtain ⟨gs, gs', hin, hout, rfl⟩ := hheld.buffers
  refine Safe.bind (keeps_arrays (w := {}) hheld.notNull) ?_
  rintro - _ rfl
  refine Safe.bind (RdmaExec.keeps_deallocateBuffer (w := {}) h hin) ?_
  rintro - _ rfl
  refine Safe.bind (RdmaExec.keeps_deallocateBuffer (w := {}) h hout) ?_
  rintro - _ rfl
  exact RdmaExec.keeps_outDisconnect params rv

/-! ## The whole run -/

/-- What is held where the first part of `run` is left. -/
def LeftWith (params : DccsParameters) (exit : Exit) (w : Ledger) : Prop := match exit with
  | .end_ _ => w.Settled ↔ w.tosRefused = false
  | .outDisconnect _ => w = { held := endpoints (roleOf params) }
  | .outDeallocateBuffer ins outs arrays _ | .ended ins outs arrays _ _ =>
    Held params ins outs arrays w

theorem keeps_clientRun (h : Held params ins outs [] w) :
    Keeps (clientRun params ins outs) w (LeftWith params) := by
  refine Safe.bind keeps_clientRounds ?_
  rintro - _ rfl
  refine safe_bind.2 ⟨trivial, fun buf _ => Safe.bind (RdmaExec.keeps_recvMessage buf _) ?_⟩
  rintro rv _ rfl
  refine safe_ite.2 ⟨fun _ => ?_, fun _ => safe_bind.2 ⟨trivial, fun _ _ => h⟩⟩
  exact safe_bind.2 ⟨trivial, fun _ _ => safe_bind.2 ⟨trivial, fun _ _ => h⟩⟩

theorem keeps_callocStamps {f : Option Ptr → VProg α} {Q : α → Ledger → Prop}
    (hnone : Keeps (f none) w Q) (hsome : ∀ p, p ≠ .null → Keeps (f (some p)) (w.acquire (.heap p)) Q) :
    Keeps (callocStamps params >>= f) w Q := by
  refine safe_bind.2 ⟨trivial, fun p hp => ?_⟩
  cases p with
  | none => exact hnone
  | some p => exact hsome p hp

theorem keeps_serverRun (h : Held params ins outs [] w) (rv : Int) :
    Keeps (serverRun params ins outs rv) w (LeftWith params) := by
  refine keeps_callocStamps (safe_bind.2 ⟨trivial, fun _ _ => h⟩) fun start hstart => ?_
  have hfirst := h.array hstart
  refine keeps_callocStamps (safe_bind.2 ⟨trivial, fun _ _ => hfirst⟩) fun end_ hend => ?_
  have hboth := hfirst.array hend
  refine Safe.bind keeps_serverRounds ?_
  rintro stamps _ rfl
  refine safe_bind.2 ⟨trivial, fun buf _ => Safe.bind (RdmaExec.keeps_sendMessage buf _) ?_⟩
  rintro rv _ rfl
  refine safe_ite.2 ⟨fun _ => ?_, fun _ => safe_bind.2 ⟨trivial, fun _ _ => hboth⟩⟩
  exact safe_bind.2 ⟨trivial, fun _ _ => safe_bind.2 ⟨trivial, fun _ _ => hboth⟩⟩

theorem keeps_untilEnd (h : Accepted params) : Keeps (untilEnd o params) {} (LeftWith params) := by
  refine Safe.bind (RdmaExec.keeps_connect params) fun rv w hw =>
    safe_ite.2 ⟨fun hrv => hw.failed hrv, fun hrv => ?_⟩
  obtain rfl := hw.ok (not_not.1 hrv)
  refine safe_ite.2 ⟨fun _ => trivial, fun _ => ?_⟩
  refine Safe.bind (RdmaExec.keeps_allocateBuffer h (by simp)) fun r w hr => ?_
  obtain ⟨hrv, gs, hin, rfl⟩ := hr
  refine safe_ite.2 ⟨fun hne => absurd hrv hne, fun _ => ?_⟩
  refine Safe.bind (RdmaExec.keeps_allocateBuffer h (by simp)) fun r' w hr => ?_
  obtain ⟨hrv, gs', hout, rfl⟩ := hr
  refine safe_ite.2 ⟨fun hne => absurd hrv hne, fun _ => ?_⟩
  refine Safe.bind keeps_writePackets ?_
  rintro _ _ rfl
  refine Safe.bind (keeps_exchange (roleOf params) params.count) fun x w hx => ?_
  obtain ⟨hw, hsame⟩ := hx
  have hheld : Held params r.2 x.2 [] w := by
    refine ⟨by simp, gs, gs', hin, hout.of_same hsame, hw.trans ?_⟩
    show _ = ({ held := 0 + _ } : Ledger)
    rw [zero_add, add_left_comm]
  refine safe_ite.2 ⟨fun _ => hheld, fun _ => ?_⟩
  cases roleOf params with
  | server => exact keeps_serverRun hheld _
  | client => exact keeps_clientRun hheld

/-- Every label goes on to the end with what is held there. -/
theorem keeps_finish (h : Accepted params) {exit : Exit} (hw : LeftWith params exit w) :
    Keeps (finish params exit) w fun _ w' => w'.Settled ↔ w'.tosRefused = false := by
  have hempty : ∀ w' : Ledger, w' = {} → (w'.Settled ↔ w'.tosRefused = false) := by
    rintro _ rfl
    decide
  cases exit with
  | end_ rv => exact hw
  | outDisconnect rv =>
    have hw : w = { held := endpoints (roleOf params) } := hw
    subst hw
    exact (RdmaExec.keeps_outDisconnect params rv).mono fun _ w' => hempty w'
  | outDeallocateBuffer ins outs arrays rv =>
    exact (Held.outDeallocateBuffer h hw rv).mono fun _ w' => hempty w'
  | ended ins outs arrays stamps rv =>
    have hprint : ∀ requests, Calls AcquiresNothing (printSha1sum requests params.count) :=
      fun requests => calls_printSha1sum (fun _ _ => trivial) (fun _ _ _ => trivial)
        (fun _ => trivial) requests params.count
    have hout := (Held.outDeallocateBuffer h hw rv).mono fun _ w' => hempty w'
    unfold finish
    dsimp only
    cases roleOf params with
    | server => exact keeps_bind (hprint outs) fun _ => keeps_bind (hprint ins) fun _ => hout
    | client => exact keeps_bind (hprint ins) fun _ => keeps_bind (hprint outs) fun _ => hout

/-- **Resource ledger.** When `run` returns, everything is released exactly once and nothing else
is, unless `rdma_set_option` failed: then, and only then, something is left. -/
theorem control_settled_iff (o : ByteOrder) (h : Accepted params) {rv : Int}
    (hret : Reach ledger (run o params) {} (.ret rv) w) : w.Settled ↔ w.tosRefused = false := by
  have hsafe : Keeps (run o params) {} fun _ w => w.Settled ↔ w.tosRefused = false :=
    Safe.bind (keeps_untilEnd h) fun exit w hw => keeps_finish h hw
  exact hsafe.reach hret

end ledger

/-- A server with two regions of two requests each. -/
def fourListened : DccsParameters := { fourRequests with server := none }

theorem accepted_fourListened : Accepted fourListened :=
  ⟨fourListened, ⟨by decide, by decide, by decide, by decide, by decide, by decide⟩, rfl⟩

/-- The second `calloc` fails: all is given back, and the status is that of a good exchange. -/
theorem control_settled_iff_fourListened :
    ∃ w, Reach ledger (run .little fourListened) {} (.ret 1) w ∧ (w.Settled ↔ w.tosRefused = false) := by
  have hrun : (play ledger (grants 11) (run .little fourListened) {}).any
      (fun r => decide (r.1 = 1)) = true := by decide +kernel
  obtain ⟨rv, w, hreach, hcheck⟩ := exists_reach_of_play (grants_adm 11) hrun
  obtain rfl : rv = 1 := of_decide_eq_true hcheck
  exact ⟨w, hreach, control_settled_iff .little accepted_fourListened hreach⟩

end ControlExec

end RdmaOpera
