import RdmaOpera.CallKinds
import RdmaOpera.ControlRounds

/-!
# What a control server reports

The round loop is left as soon as a completion fails (`control_main.c:186-189`), and the report is
made of all `params.repeat` entries of the two arrays all the same.
-/

namespace RdmaOpera.ControlExec

open Lib Prog

/-- Where a round stands: its writes are posted, or some completions of it have come. -/
inductive Phase where
  | idle
  | posting (start : Option UInt64)
  | completed (start : UInt64)
deriving DecidableEq

/-- The last reading before the posts of the round. -/
def Phase.start : Phase → Option UInt64
  | .idle => none
  | .posting start => start
  | .completed start => some start

def Phase.complete : Phase → Phase
  | .posting (some start) => .completed start
  | phase => phase

structure Measured where
  last : UInt64 := 0
  phase : Phase := .idle
  /-- start and end of the rounds that were completed -/
  rounds : List (UInt64 × UInt64) := []
  /-- the wait of a round has failed -/
  waitFailed : Bool := false

def Measured.read (w : Measured) (now : UInt64) : Measured := match w.phase with
  | .idle => { w with last := now }
  | .posting _ => { w with last := now, phase := .posting (some now) }
  | .completed start => { w with last := now, phase := .idle, rounds := w.rounds ++ [(start, now)] }

def Measured.poll (w : Measured) (p : Poll) : Measured :=
  if w.phase = .idle then w
  else if 0 ≤ p.rv then { w with phase := w.phase.complete }
  else { w with phase := .idle, waitFailed := true }

/-- A clock that does not go back; a round begins when its slot does. -/
def measuring : Monitor Verbs Measured where
  upd w
    | .getCycles, (now : UInt64) => w.read now
    | .waitUntil _, (r : List UInt64 × UInt64) => { w with last := r.2, phase := .posting none }
    | .pollSend _, (p : Poll) => w.poll p
    | _, _ => w
  adm w
    | .getCycles, (now : UInt64) => w.last ≤ now
    | .waitUntil target, (r : List UInt64 × UInt64) =>
      (w.last :: (r.1 ++ [r.2])).Pairwise (· ≤ ·) ∧
        (∀ reading ∈ r.1, reading < target) ∧ target ≤ r.2
    | _, _ => True
  spins := True

theorem quiet_measuring : Quiet measuring fun _ _ => True := ⟨fun _ _ => trivial, fun _ _ _ => rfl⟩

/-- Every latency of the report is that of a round that was completed. -/
structure ReportMeasured (params : DccsParameters) (stamps : RoundState) (w : Measured) : Prop where
  written : ∀ n < params.repeat_, w.rounds[n]? = some (stamps.start.getD n 0, stamps.end_.getD n 0)
  ordered : ∀ n < params.repeat_, stamps.start.getD n 0 ≤ stamps.end_.getD n 0
  elapsed : ∀ n < params.repeat_, (stamps.end_.getD n 0 - stamps.start.getD n 0).toNat =
    (stamps.end_.getD n 0).toNat - (stamps.start.getD n 0).toNat

/-! ## The clock -/

/-- A round ends no earlier than it starts, and starts no later than now. -/
structure InOrder (w : Measured) : Prop where
  rounds : ∀ round ∈ w.rounds, round.1 ≤ round.2
  start : ∀ start, w.phase.start = some start → start ≤ w.last

theorem InOrder.poll {w : Measured} (h : InOrder w) (p : Poll) : InOrder (w.poll p) := by
  unfold Measured.poll
  split
  · exact h
  · split
    · refine ⟨h.rounds, fun start hstart => h.start start ?_⟩
      cases hphase : w.phase with
      | idle => rw [hphase] at hstart; exact hstart
      | posting first => cases first <;> (rw [hphase] at hstart; exact hstart)
      | completed first => rw [hphase] at hstart; exact hstart
    · exact ⟨h.rounds, fun start hstart => nomatch hstart⟩

theorem InOrder.read {w : Measured} (h : InOrder w) {now : UInt64} (hnow : w.last ≤ now) :
    InOrder (w.read now) := by
  unfold Measured.read
  cases hphase : w.phase with
  | idle => exact ⟨h.rounds, fun start hstart => nomatch hstart⟩
  | posting first => exact ⟨h.rounds, fun start hstart => by cases hstart; exact UInt64.le_refl _⟩
  | completed first =>
    have hfirst : first ≤ w.last := h.start first (by rw [hphase]; rfl)
    refine ⟨fun round hround => ?_, fun start hstart => nomatch hstart⟩
    rcases List.mem_append.1 hround with hround | hround
    · exact h.rounds round hround
    · rw [List.mem_singleton.1 hround]
      exact UInt64.le_trans hfirst hnow

theorem InOrder.upd {w : Measured} (h : InOrder w) {op : VOp} {a : op.Ans}
    (ha : measuring.adm w op a) :
    InOrder (measuring.upd w op a) := by
  cases op with
  | getCycles => exact h.read ha
  | waitUntil target => exact ⟨h.rounds, fun start hstart => nomatch hstart⟩
  | pollSend num => exact h.poll a
  | _ => exact h

/-! ## One round -/

section
variable {requestsOut : List DccsRequest} {params : DccsParameters}

theorem getD_set {stamps : List UInt64} {n : Nat} (now : UInt64) (h : n < stamps.length) (i : Nat) :
    (stamps.set n now).getD i 0 = if n = i then now else stamps.getD i 0 := by
  simp only [List.getD_eq_getElem?_getD, List.getElem?_set, h, if_true]
  split
  · rename_i e
    subst e
    rfl
  · rfl

/-- Before turn `i` of the inner loop of round `n`. -/
structure Stamping (n : Nat) (stamps : RoundState) (rounds : List (UInt64 × UInt64)) (i : Nat)
    (s : RoundState × Bool) (w : Measured) : Prop where
  end_ : s.1.end_ = stamps.end_
  broke : s.1.broke = stamps.broke
  length : s.1.start.length = stamps.start.length
  before : ∀ j, j ≠ n → s.1.start.getD j 0 = stamps.start.getD j 0
  refused : s.2 = true → 0 < i
  phase : w.phase = .posting (if i = 0 then none else some (s.1.start.getD n 0))
  rounds : w.rounds = rounds
  waitFailed : w.waitFailed = false

theorem safe_postOne_measuring {n i : Nat} {stamps : RoundState} {rounds : List (UInt64 × UInt64)}
    {s : RoundState × Bool} {w : Measured} (hn : n < stamps.start.length)
    (h : Stamping n stamps rounds i s w) :
    Safe measuring (fun _ _ => True) (postOne requestsOut n i s) w (Stamping n stamps rounds (i + 1)) := by
  obtain ⟨hend, hbroke, hlen, hbefore, hrefused, hphase, hrounds, hfailed⟩ := h
  have hn' : n < s.1.start.length := hlen ▸ hn
  refine safe_postOne_of_quiet quiet_measuring (fun hs => ?_) fun _ =>
    ⟨trivial, fun now _ => ⟨trivial, fun rv _ => ?_⟩⟩
  · have hi := hrefused hs
    rw [if_neg hi.ne'] at hphase
    exact ⟨hend, hbroke, hlen, hbefore, fun _ => Nat.succ_pos i,
      by rw [hphase, if_neg (Nat.succ_ne_zero i)], hrounds, hfailed⟩
  · have hread : w.read now = { w with last := now, phase := .posting (some now) } := by
      unfold Measured.read
      rw [hphase]
    show Stamping n stamps rounds (i + 1) ({ s.1 with start := s.1.start.set n now },
      decide (rv ≠ 0)) (w.read now)
    rw [hread]
    refine ⟨hend, hbroke,
      by rw [List.length_set]; exact hlen, fun j hj => ?_, fun _ => Nat.succ_pos i, ?_, hrounds, hfailed⟩
    · rw [getD_set now hn', if_neg hj.symm]
      exact hbefore j hj
    · rw [if_neg (Nat.succ_ne_zero i), getD_set now hn', if_pos rfl]

/-- The wait of a round that started at `start`. -/
theorem safe_wait_measuring {count : Nat} {start : UInt64} {w : Measured}
    (hphase : w.phase = .posting (if count = 0 then none else some start))
    (hfailed : w.waitFailed = false) :
    Safe measuring (fun _ _ => True) (whileZero (dccsRdmaSendComp (toInt32 count))) w fun rv w' =>
      w'.rounds = w.rounds ∧ (rv < 0 → w'.phase = .idle ∧ w'.waitFailed = true) ∧
        (0 ≤ rv → w'.phase = .completed start ∧ w'.waitFailed = false) := by
  refine quiet_measuring.whileSendComp trivial (fun wcArr w' => w'.rounds = w.rounds ∧
      w'.waitFailed = false ∧ w'.phase = if wcArr = [] then w.phase else .completed start)
    (fun wcArr w' hlt hI => ⟨trivial, fun p _ => ?_⟩)
    (fun wcArr w' _ hsome hI => ⟨hI.1, fun hneg => ?_, fun _ => ?_⟩)
    ⟨rfl, hfailed, by rw [if_pos rfl]⟩
  · obtain ⟨hrounds, hfailed', hphase'⟩ := hI
    have hcount : count ≠ 0 := by
      rintro rfl
      rw [toInt32_of_lt (by decide)] at hlt
      omega
    rw [hphase, if_neg hcount] at hphase'
    obtain ⟨hcomplete, hbusy⟩ : w'.phase.complete = .completed start ∧ w'.phase ≠ .idle := by
      rw [hphase']
      split <;> exact ⟨rfl, nofun⟩
    split
    · rename_i hrv
      have hsome : wcArr ++ p.wcs ≠ [] := by
        intro hnil
        have hne := (Poll.rv_nonneg.1 hrv).1
        cases p with
        | failed => exact hne rfl
        | got wc rest => exact absurd (List.append_eq_nil_iff.1 hnil).2 (List.cons_ne_nil _ _)
      have hpoll : w'.poll p = { w' with phase := .completed start } := by
        rw [Measured.poll, if_neg hbusy, if_pos hrv, hcomplete]
      show (w'.poll p).rounds = _ ∧ (w'.poll p).waitFailed = _ ∧ (w'.poll p).phase = _
      rw [hpoll, if_neg hsome]
      exact ⟨hrounds, hfailed', rfl⟩
    · rename_i hrv
      have hpoll : w'.poll p = { w' with phase := .idle, waitFailed := true } := by
        rw [Measured.poll, if_neg hbusy, if_neg hrv]
      show (w'.poll p).rounds = _ ∧ (_ → (w'.poll p).phase = _ ∧ (w'.poll p).waitFailed = _) ∧ _
      rw [hpoll]
      exact ⟨hrounds, fun _ => ⟨rfl, rfl⟩, fun (hpos : (0 : Int) ≤ -1) => by omega⟩
  · exact absurd hneg (by simp)
  · exact ⟨by rw [hI.2.2, if_neg hsome], hI.2.1⟩

/-! ## The loop -/

/-- The entries below `n` are those of the rounds. -/
def Stamps (n : Nat) (stamps : RoundState) (rounds : List (UInt64 × UInt64)) : Prop :=
  rounds.length = n ∧ ∀ i < n, rounds[i]? = some (stamps.start.getD i 0, stamps.end_.getD i 0)

/-- Before turn `n` of the round loop, which does nothing once a wait has failed. -/
structure Measuring (repeat_ n : Nat) (stamps : RoundState) (w : Measured) : Prop where
  phase : w.phase = .idle
  start : stamps.start.length = repeat_
  end_ : stamps.end_.length = repeat_
  going : stamps.broke = false → w.waitFailed = false ∧ Stamps n stamps w.rounds
  left : stamps.broke = true → w.waitFailed = true ∧ w.rounds.length < n

theorem safe_controlRound_measuring {n : Nat} (hn : n < params.repeat_) {stamps : RoundState}
    {w : Measured} (h : Measuring params.repeat_ n stamps w) :
    Safe measuring (fun _ _ => True) (controlRound requestsOut params n stamps) w
      (Measuring params.repeat_ (n + 1)) := by
  obtain ⟨hphase, hstart, hend, hgoing, hleft⟩ := h
  refine safe_ite.2 ⟨fun hb => ?_,
    fun hb => safe_ite.2 ⟨fun _ => trivial, fun _ => safe_bind.2 ⟨trivial, fun r _ => ?_⟩⟩⟩
  · obtain ⟨hfailed, hlen⟩ := hleft hb
    exact ⟨hphase, hstart, hend, (fun hb' => nomatch hb.symm.trans hb'),
      fun _ => ⟨hfailed, by omega⟩⟩
  · have hb' := Bool.eq_false_of_not_eq_true hb
    obtain ⟨hfailed, hlen, hstamps⟩ := hgoing hb'
    have hn' : n < stamps.start.length := hstart ▸ hn
    have hfirst : Stamping n { stamps with target := stamps.target + slotNs } w.rounds 0
        ({ stamps with target := stamps.target + slotNs }, false)
          { w with last := r.2, phase := .posting none } :=
      ⟨rfl, rfl, rfl, fun _ _ => rfl, (fun hf => nomatch hf), rfl, rfl, hfailed⟩
    refine Safe.bind (safe_forN (Stamping n { stamps with target := stamps.target + slotNs } w.rounds) hfirst
      fun i s t _ hs => safe_postOne_measuring hn' hs) fun s t hs => ?_
    obtain ⟨hends, hbroke, hlength, hbefore, -, hposting, hrounds, hfailed'⟩ := hs
    refine (safe_wait_measuring hposting hfailed').bind fun rv t' hwait => ?_
    obtain ⟨hrounds', hlost, hdone⟩ := hwait
    rw [hrounds] at hrounds'
    refine safe_ite.2 ⟨fun hneg => quiet_measuring.logError_bind ?_, fun hneg => ?_⟩
    · obtain ⟨hidle, hfailed''⟩ := hlost hneg
      exact ⟨hidle, hlength.trans hstart, (congrArg _ hends).trans hend, (fun hb => nomatch hb),
        fun _ => ⟨hfailed'', by rw [hrounds']; omega⟩⟩
    · obtain ⟨hcompleted, hfailed''⟩ := hdone (not_lt.1 hneg)
      refine safe_bind.2 ⟨trivial, fun now _ => ?_⟩
      have hread : t'.read now =
        { t' with last := now, phase := .idle, rounds := t'.rounds ++ [(s.1.start.getD n 0, now)] } := by
        unfold Measured.read
        rw [hcompleted]
      have hendn : n < s.1.end_.length := by rw [hends, hend]; exact hn
      show Measuring params.repeat_ (n + 1) { s.1 with end_ := s.1.end_.set n now } (t'.read now)
      rw [hread]
      refine ⟨rfl, hlength.trans hstart,
        by rw [List.length_set, hends, hend], fun _ => ⟨hfailed'', ?_, fun i hi => ?_⟩,
        fun hb => nomatch (hbroke.trans hb').symm.trans hb⟩
      · rw [List.length_append, hrounds', hlen]
        rfl
      · show (t'.rounds ++ [(s.1.start.getD n 0, now)])[i]? =
          some (s.1.start.getD i 0, (s.1.end_.set n now).getD i 0)
        rw [hrounds', getD_set now hendn]
        rcases Nat.lt_succ_iff_lt_or_eq.1 hi with hlt | rfl
        · rw [List.getElem?_append_left (hlen ▸ hlt), if_neg hlt.ne', hstamps i hlt,
            hbefore i hlt.ne, hends]
        · rw [List.getElem?_append_right hlen.le, hlen, Nat.sub_self, if_pos rfl]
          rfl

theorem safe_serverRounds_measuring {w : Measured} (hphase : w.phase = .idle)
    (hfailed : w.waitFailed = false) (hrounds : w.rounds = []) :
    Safe measuring (fun _ _ => True) (serverRounds requestsOut params) w
      (Measuring params.repeat_ params.repeat_) := by
  refine safe_bind.2 ⟨trivial, fun target _ => ?_⟩
  have hread : w.read target = { w with last := target } := by
    unfold Measured.read
    rw [hphase]
  have hfirst : Measuring params.repeat_ 0
      { target, start := List.replicate params.repeat_ 0, end_ := List.replicate params.repeat_ 0 }
        (w.read target) := by
    rw [hread]
    exact ⟨hphase, List.length_replicate, List.length_replicate,
      fun _ => ⟨hfailed, by rw [hrounds]; rfl, fun i hi => absurd hi (Nat.not_lt_zero i)⟩,
        (fun hb => nomatch hb)⟩
  exact safe_forN (Measuring params.repeat_) hfirst fun n s t hn hs =>
    safe_controlRound_measuring hn hs

/-! ## Before the rounds and after them -/

def StartsNoRound : VOp → Prop
  | .waitUntil _ => False
  | _ => True

theorem startsNoRound_manages : Manages StartsNoRound :=
  ⟨fun _ => trivial, fun _ => trivial, fun _ => trivial⟩

theorem startsNoRound_obtains : Obtains StartsNoRound :=
  ⟨fun _ => trivial, fun _ => trivial, fun _ => trivial, fun _ _ _ => trivial, fun _ => trivial⟩

theorem startsNoRound_releases : Releases StartsNoRound :=
  ⟨fun _ => trivial, fun _ => trivial, fun _ => trivial⟩

theorem startsNoRound_sends : Sends StartsNoRound :=
  ⟨fun _ => trivial, fun _ => trivial, trivial, fun _ => trivial⟩

theorem startsNoRound_receives : Receives StartsNoRound :=
  ⟨fun _ => trivial, trivial, fun _ => trivial⟩

theorem startsNoRound_writePackets (o : ByteOrder) (requestsOut : List DccsRequest) :
    Calls StartsNoRound (writePackets o params requestsOut) := by
  refine calls_forN (fun n _ => ?_) _ _
  unfold writePacket
  cases RdmaExec.roleOf params <;> exact ⟨trivial, fun _ => ⟨trivial, fun _ => trivial⟩⟩

theorem startsNoRound_exchangeMrInfo (o : ByteOrder) (role : Role)
    (requestsIn requestsOut : List DccsRequest) (count : Nat) :
    Calls StartsNoRound (exchangeMrInfo o role requestsIn requestsOut count) := by
  have hlog : ∀ format, StartsNoRound (.logError format) := fun _ => trivial
  have hget : Calls StartsNoRound (getRemoteMrInfo o requestsOut count) :=
    calls_getRemoteMrInfo startsNoRound_obtains startsNoRound_receives startsNoRound_releases
      (fun _ _ => trivial) o _ _
  have hsend : Calls StartsNoRound (sendLocalMrInfo o requestsIn count) :=
    calls_sendLocalMrInfo startsNoRound_obtains startsNoRound_sends startsNoRound_releases o _ _
  cases role with
  | server =>
    exact hget.bind fun _ =>
      .ite (calls_logError hlog) (hsend.bind fun _ => .ite (calls_logError hlog) trivial)
  | client =>
    exact hsend.bind fun _ =>
      .ite (calls_logError hlog) (hget.bind fun _ => .ite (calls_logError hlog) trivial)

/-- Nothing is measured there. -/
structure Outside (w w' : Measured) : Prop where
  phase : w'.phase = .idle
  rounds : w'.rounds = w.rounds
  waitFailed : w'.waitFailed = w.waitFailed

theorem Outside.trans {w w' w'' : Measured} (h : Outside w w') (h' : Outside w' w'') : Outside w w'' :=
  ⟨h'.phase, h'.rounds.trans h.rounds, h'.waitFailed.trans h.waitFailed⟩

theorem Outside.upd {w w' : Measured} (h : Outside w w') {op : VOp} (hop : StartsNoRound op)
    (a : op.Ans) :
    Outside w (measuring.upd w' op a) := by
  obtain ⟨hphase, hrounds, hfailed⟩ := h
  cases op with
  | waitUntil target => exact hop.elim
  | getCycles =>
    show Outside w (w'.read a)
    rw [Measured.read, hphase]
    exact ⟨rfl, hrounds, hfailed⟩
  | pollSend num =>
    show Outside w (w'.poll a)
    rw [Measured.poll, if_pos hphase]
    exact ⟨hphase, hrounds, hfailed⟩
  | _ => exact ⟨hphase, hrounds, hfailed⟩

theorem safe_outside {α : Type} {p : VProg α} (hp : Calls StartsNoRound p) {w : Measured}
    (hphase : w.phase = .idle) :
    Safe measuring (fun _ _ => True) p w fun _ w' => Outside w w' := by
  have hkeep : ∀ s op a, StartsNoRound op → Outside w s → measuring.adm s op a →
    Outside w (measuring.upd s op a) :=
    fun _ _ a hop hI _ => hI.upd hop a
  exact hp.keeps trivial ⟨hphase, rfl, rfl⟩ (fun _ _ _ _ => trivial) hkeep

theorem Measuring.outside {repeat_ n : Nat} {stamps : RoundState} {w w' : Measured}
    (h : Measuring repeat_ n stamps w) (hw : Outside w w') :
    Measuring repeat_ n stamps w' := by
  obtain ⟨-, hstart, hend, hgoing, hleft⟩ := h
  refine ⟨hw.phase, hstart, hend, ?_, ?_⟩
  · rw [hw.waitFailed, hw.rounds]
    exact hgoing
  · rw [hw.waitFailed, hw.rounds]
    exact hleft

/-! ## The run -/

/-- What is known where the report is made. -/
def AtReport (params : DccsParameters) : Exit → Measured → Prop
  | .ended _ _ _ (some stamps) _, w => Measuring params.repeat_ params.repeat_ stamps w
  | _, _ => True

theorem safe_serverRun {requestsIn : List DccsRequest} {rv : Int} {w : Measured}
    (hphase : w.phase = .idle) (hfailed : w.waitFailed = false) (hrounds : w.rounds = []) :
    Safe measuring (fun _ _ => True) (serverRun params requestsIn requestsOut rv) w (AtReport params) := by
  refine safe_bind.2 ⟨trivial, fun start _ => ?_⟩
  cases start with
  | none => exact quiet_measuring.logError_bind trivial
  | some start =>
    refine safe_bind.2 ⟨trivial, fun end_ _ => ?_⟩
    cases end_ with
    | none => exact quiet_measuring.logError_bind trivial
    | some end_ =>
      refine (safe_serverRounds_measuring hphase hfailed hrounds).bind fun stamps w' hw' =>
        safe_bind.2 ⟨trivial, fun buf _ => ?_⟩
      have hsend : Calls StartsNoRound (sendMessage buf syncEndMessageLength) :=
        calls_sendMessage startsNoRound_obtains startsNoRound_sends startsNoRound_releases _ _
      refine (safe_outside hsend hw'.phase).bind fun rv w'' hw'' =>
        safe_ite.2 ⟨fun _ => ?_, fun _ => ?_⟩
      · exact quiet_measuring.logError_bind (safe_bind.2 ⟨trivial, fun _ _ => trivial⟩)
      · exact safe_bind.2 ⟨trivial, fun _ _ => hw'.outside hw''⟩

theorem safe_clientRun {requestsIn : List DccsRequest} {w : Measured} :
    Safe measuring (fun _ _ => True) (clientRun params requestsIn requestsOut) w (AtReport params) := by
  refine safe_bind_any (fun _ _ => trivial) trivial fun _ _ =>
    safe_bind_any (fun _ _ => trivial) trivial fun buf _ => ?_
  refine safe_bind_any (fun _ _ => trivial) trivial fun rv _ =>
    safe_ite.2 ⟨fun _ => ?_, fun _ => ?_⟩
  · exact quiet_measuring.logError_bind (safe_bind.2 ⟨trivial, fun _ _ => trivial⟩)
  · exact safe_bind.2 ⟨trivial, fun _ _ => trivial⟩

theorem safe_untilEnd (o : ByteOrder) :
    Safe measuring (fun _ _ => True) (untilEnd o params) {} (AtReport params) := by
  refine (safe_outside (startsNoRound_manages.connect params) rfl).bind fun rv w hw =>
    safe_ite.2 ⟨fun _ => trivial, fun _ => ?_⟩
  refine safe_ite.2 ⟨fun _ => trivial, fun _ => ?_⟩
  refine (safe_outside (startsNoRound_obtains.allocateBuffer _ params) hw.phase).bind
    fun rin w₁ hw₁ => ?_
  refine safe_ite.2 ⟨fun _ => quiet_measuring.logError_bind trivial, fun _ => ?_⟩
  refine (safe_outside (startsNoRound_obtains.allocateBuffer _ params) hw₁.phase).bind
    fun rout w₂ hw₂ => ?_
  refine safe_ite.2 ⟨fun _ => quiet_measuring.logError_bind trivial, fun _ => ?_⟩
  refine (safe_outside (startsNoRound_writePackets o rout.2) hw₂.phase).bind fun _ w₃ hw₃ => ?_
  refine (safe_outside (startsNoRound_exchangeMrInfo o _ rin.2 rout.2 _) hw₃.phase).bind
    fun r w₄ hw₄ => ?_
  refine safe_ite.2 ⟨fun _ => trivial, fun _ => ?_⟩
  cases RdmaExec.roleOf params with
  | server =>
    have hw := ((hw.trans hw₁).trans hw₂).trans (hw₃.trans hw₄)
    exact safe_serverRun hw.phase hw.waitFailed hw.rounds
  | client => exact safe_clientRun

/-- **Control latency report**: its latencies are those of completed rounds if, and only if, no wait
of a round has failed. -/
theorem reportMeasured_iff {o : ByteOrder} {requestsIn : List DccsRequest} {arrays : List Ptr}
    {stamps : RoundState} {rv : Int} {w : Measured}
    (h : Reach measuring (untilEnd o params) {}
      (.ret (.ended requestsIn requestsOut arrays (some stamps) rv)) w) :
    ReportMeasured params stamps w ↔ w.waitFailed = false := by
  have hfirst : InOrder ({} : Measured) := ⟨(fun _ h => nomatch h), (fun _ h => nomatch h)⟩
  have hsafe : Safe measuring (fun _ _ => True) (untilEnd o params) {} fun exit w =>
    AtReport params exit w ∧ InOrder w :=
    (safe_untilEnd o).invariant hfirst (fun _ _ _ _ => trivial) fun _ _ _ hI _ ha => hI.upd ha
  obtain ⟨hmeasuring, horder⟩ := hsafe.reach h
  obtain ⟨-, -, -, hgoing, hleft⟩ : Measuring params.repeat_ params.repeat_ stamps w := hmeasuring
  constructor
  · intro hreport
    refine Bool.eq_false_of_not_eq_true fun hfailed => ?_
    have hbroke : stamps.broke = true := by
      refine Bool.eq_true_of_not_eq_false fun hb => ?_
      exact absurd ((hgoing hb).1.symm.trans hfailed) Bool.false_ne_true
    have hwritten := hreport.written _ (hleft hbroke).2
    rw [List.getElem?_eq_none le_rfl] at hwritten
    exact nomatch hwritten
  · intro hfailed
    have hbroke : stamps.broke = false := by
      refine Bool.eq_false_of_not_eq_true fun hb => ?_
      exact absurd (hfailed.symm.trans (hleft hb).1) Bool.false_ne_true
    obtain ⟨-, -, hstamps⟩ := hgoing hbroke
    have hordered : ∀ n < params.repeat_, stamps.start.getD n 0 ≤ stamps.end_.getD n 0 :=
      fun n hn => horder.rounds _ (List.mem_of_getElem? (hstamps n hn))
    exact ⟨hstamps, hordered, fun n hn => UInt64.toNat_sub_of_le _ _ (hordered n hn)⟩

/-- A server of one packet a round, for a hundred rounds. -/
def oneWriteServer : DccsParameters :=
  { oneSend with verb := .Write, length := 6, repeat_ := 100, server := none }

/-- Everything succeeds, but for the completions of the rounds if they are lost. -/
def serverAnswers (lost : Bool) (w : Measured) : (op : VOp) → op.Ans
  | .cm _ => (0 : Int)
  | .malloc _ => some ⟨some 0, 4096⟩
  | .mallocRandom size => some (⟨some 0, 4096⟩, List.replicate size 7)
  | .regMr .. => some ⟨0, 0⟩
  | .postSend _ => (0 : Int)
  | .postRecv _ => (0 : Int)
  | .pollSend _ => if lost ∧ w.phase ≠ .idle then Poll.failed else Poll.got .good []
  | .pollRecv => Poll.got .good []
  | .load _ length => if length = 8 then ByteOrder.little.bytes 8 1 else List.replicate length 0
  | .stackVar _ => ⟨some 0, 4096⟩
  | .getCycles => w.last
  | .waitUntil target => ([], if w.last ≤ target then target else w.last)
  | .cmRelease _ | .leave _ | .free _ | .deregMr _ | .store .. | .logError _ | .report ..
  | .logDigest .. => ()

theorem serverAnswers_adm (lost : Bool) (w : Measured) (op : VOp) :
    measuring.adm w op (serverAnswers lost w op) := by
  cases op with
  | getCycles => exact UInt64.le_refl _
  | waitUntil target =>
    show List.Pairwise _ [w.last, if w.last ≤ target then target else w.last] ∧ _ ∧
      target ≤ if w.last ≤ target then target else w.last
    refine ⟨List.pairwise_pair.2 ?_, fun _ h => (nomatch h), ?_⟩
    · split
      · assumption
      · exact UInt64.le_refl _
    · split
      · exact UInt64.le_refl _
      · exact UInt64.le_of_lt (UInt64.not_le.1 ‹_›)
  | _ => trivial

/-- No wait failed, and the last round ended when the last slot began. -/
def allMeasured : Exit × Measured → Bool
  | (.ended _ _ _ (some stamps) _, w) => !w.waitFailed && stamps.end_.getD 99 0 == 10000000
  | _ => false

/-- The first round started, and did not end. -/
def halfMeasured : Exit × Measured → Bool
  | (.ended _ _ _ (some stamps) _, w) =>
    w.waitFailed && stamps.start.getD 0 0 == 100000 && stamps.end_.getD 0 0 == 0
  | _ => false

theorem reportMeasured_iff_oneWriteServer :
    ∃ requestsIn requestsOut arrays stamps rv w,
      Reach measuring (untilEnd .little oneWriteServer) {}
        (.ret (.ended requestsIn requestsOut arrays (some stamps) rv)) w ∧
      ReportMeasured oneWriteServer stamps w ∧ stamps.end_.getD 99 0 = 10000000 := by
  have hrun : (play measuring (serverAnswers false) (untilEnd .little oneWriteServer) {}).any
    allMeasured = true := by decide +kernel
  obtain ⟨exit, w, hreach, hcheck⟩ := exists_reach_of_play (serverAnswers_adm false) hrun
  match exit, hreach, hcheck with
  | .ended requestsIn requestsOut arrays (some stamps) rv, hreach, hcheck =>
    rw [allMeasured, Bool.and_eq_true, Bool.not_eq_true', beq_iff_eq] at hcheck
    exact ⟨requestsIn, requestsOut, arrays, stamps, rv, w, hreach,
      (reportMeasured_iff hreach).2 hcheck.1, hcheck.2⟩

/-- The completion of the first round fails, and its latency is almost `2 ^ 64` cycles. -/
theorem reportMeasured_counterexample :
    Accepted oneWriteServer ∧ ∃ requestsIn requestsOut arrays stamps rv w,
    Reach measuring (untilEnd .little oneWriteServer) {}
      (.ret (.ended requestsIn requestsOut arrays (some stamps) rv)) w ∧
      ¬ ReportMeasured oneWriteServer stamps w ∧
      (stamps.end_.getD 0 0 - stamps.start.getD 0 0).toNat = 2 ^ 64 - 100000 := by
  refine ⟨⟨oneWriteServer, ⟨by decide, by decide, by decide, by decide, by decide, by decide⟩, rfl⟩, ?_⟩
  have hrun : (play measuring (serverAnswers true) (untilEnd .little oneWriteServer) {}).any
    halfMeasured = true := by decide +kernel
  obtain ⟨exit, w, hreach, hcheck⟩ := exists_reach_of_play (serverAnswers_adm true) hrun
  match exit, hreach, hcheck with
  | .ended requestsIn requestsOut arrays (some stamps) rv, hreach, hcheck =>
    rw [halfMeasured, Bool.and_eq_true, Bool.and_eq_true, beq_iff_eq, beq_iff_eq] at hcheck
    obtain ⟨⟨-, hstart⟩, hend⟩ := hcheck
    refine ⟨requestsIn, requestsOut, arrays, stamps, rv, w, hreach, fun h => ?_,
      by rw [hstart, hend]; decide⟩
    have hle := h.ordered 0 (by decide)
    rw [hstart, hend] at hle
    exact absurd hle (by decide)

end

end RdmaOpera.ControlExec
