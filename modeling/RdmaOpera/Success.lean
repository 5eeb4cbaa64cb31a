import RdmaOpera.RdmaMain
import RdmaOpera.RdmaRules

/-!
# When everything succeeds

`Succeeded` is what the callers of the library take for success. `Lucky` says of a monitor that it
expects such answers only; under it every function of `rdma_exec` does what its name says, one rule
for each, and reports no error (`NoError`).
-/

namespace RdmaOpera.RdmaExec

open Lib Prog

/-- What the caller takes for success; an error message is the report of a failure. -/
def Succeeded : (op : VOp) → op.Ans → Prop
  | .cm _, (rv : Int) => rv = 0
  | .malloc _, (p : Option Ptr) => p.isSome
  | .mallocRandom _, (r : Option (Ptr × List UInt8)) => r.isSome
  | .regMr .., (mr : Option Mr) => mr.isSome
  | .postSend _, (rv : Int) => rv = 0
  | .postRecv _, (rv : Int) => rv = 0
  | .pollSend _, (p : Poll) => 0 ≤ p.rv
  | .pollRecv, (p : Poll) => 0 ≤ p.rv
  | .logError _, _ => False
  | _, _ => True

/-- The call succeeds, in the plainest way; eight bytes are read as the peer's count. -/
def Plain (o : ByteOrder) (count : Nat) (e : Event Verbs) : Prop :=
  Succeeded e.op e.ans ∧ match e with
    | ⟨.pollSend _, (p : Poll)⟩ => p = .got .good []
    | ⟨.pollRecv, (p : Poll)⟩ => p = .got .good []
    | ⟨.load _ 8, (bytes : List UInt8)⟩ => bytes = o.bytes 8 count
    | _ => True

def IsLogError : VOp → Prop
  | .logError _ => True
  | _ => False

theorem exists_plain (o : ByteOrder) (count : Nat) (op : VOp) (h : ¬ IsLogError op) :
    ∃ a, Plain o count ⟨op, a⟩ := by
  cases op with
  | cm c => exact ⟨(0 : Int), rfl, trivial⟩
  | malloc bytes => exact ⟨some .null, rfl, trivial⟩
  | mallocRandom size => exact ⟨some (.null, []), rfl, trivial⟩
  | regMr access p len => exact ⟨some ⟨0, 0⟩, rfl, trivial⟩
  | postSend wr => exact ⟨(0 : Int), rfl, trivial⟩
  | postRecv wr => exact ⟨(0 : Int), rfl, trivial⟩
  | pollSend num => exact ⟨Poll.got .good [], by simp [Succeeded, Poll.rv], rfl⟩
  | pollRecv => exact ⟨Poll.got .good [], by simp [Succeeded, Poll.rv], rfl⟩
  | load p len =>
    by_cases hlen : len = 8
    · subst hlen; exact ⟨o.bytes 8 count, trivial, rfl⟩
    · exact ⟨[], trivial, by split <;> simp_all⟩
  | logError format => exact absurd trivial h
  | stackVar bytes => exact ⟨Ptr.null, trivial, trivial⟩
  | getCycles => exact ⟨(0 : UInt64), trivial, trivial⟩
  | waitUntil target => exact ⟨(([] : List UInt64), (0 : UInt64)), trivial, trivial⟩
  | cmRelease _ | leave _ | free _ | deregMr _ | store _ _ | report _ _ | logDigest _ _ _ =>
    exact ⟨(), trivial, trivial⟩

/-- No error is reported. -/
def NoError {σ : Type} (_ : σ) (op : VOp) : Prop := ¬ IsLogError op

/-- The monitor expects success. -/
def Lucky {σ : Type} (o : ByteOrder) (count : Nat) (m : Monitor Verbs σ) : Prop :=
  ∀ s op a, m.adm s op a → Plain o count ⟨op, a⟩

/-- `p` surely gets to its end, without an error to report, and returns a value satisfying `Q`. -/
abbrev Ends {σ α : Type} (m : Monitor Verbs σ) (p : VProg α) (t : σ) (Q : α → Prop) : Prop :=
  Safe m NoError p t fun a _ => Q a

/-- A request array whose first `n` entries are ready to be posted. -/
def Prepared (count n : Nat) (requests : List DccsRequest) : Prop :=
  requests.length = count ∧ ∀ i < n, (reqAt requests i).mr.isSome ∧ (reqAt requests i).verb ≠ .None

theorem Prepared.extend {count n : Nat} {requests : List DccsRequest} {r : DccsRequest}
    (h : Prepared count n requests) (hn : n < count) (hr : r.mr.isSome ∧ r.verb ≠ .None) :
    Prepared count (n + 1) (requests.set n r) := by
  refine ⟨by simp [h.1], fun i hi => ?_⟩
  rw [reqAt_set (by have := h.1; omega)]
  split
  · exact hr
  · exact h.2 i (by omega)

/-- A turn of a loop that leaves region and verb alone. -/
theorem Prepared.update {count n : Nat} {requests : List DccsRequest} {r : DccsRequest}
    (h : Prepared count count requests) (hmr : r.mr = (reqAt requests n).mr)
    (hverb : r.verb = (reqAt requests n).verb) : Prepared count count (requests.set n r) := by
  refine ⟨by simp [h.1], fun i hi => ?_⟩
  rw [reqAt_set (by have := h.1; omega)]
  split
  · rename_i e; subst e; rw [hmr, hverb]; exact h.2 _ hi
  · exact h.2 i hi

theorem Prepared.storeMrInfos {o : ByteOrder} {count : Nat} {requests : List DccsRequest}
    {bytes : List UInt8} (h : Prepared count count requests) :
    Prepared count count (storeMrInfos o bytes requests count) := by
  have hlen : (RdmaOpera.storeMrInfos o bytes requests count).length = count := by
    simp [RdmaOpera.storeMrInfos, h.1]
  refine ⟨hlen, fun i hi => ?_⟩
  rw [RdmaOpera.storeMrInfos, reqAt_mapIdx (by have := h.1; omega), if_pos hi]
  exact h.2 i hi

/-- `if ((rv = call) != 0) goto label;` after a call that succeeds. -/
theorem ends_orElse {σ : Type} {m : Monitor Verbs σ} {c : VProg Int} {f g : Int → VProg Int}
    {Q : Int → Prop} {t : σ} (hc : Ends m c t (· = 0)) (hf : ∀ t', Ends m (f 0) t' Q) :
    Ends m (c >>= fun rv => if rv ≠ 0 then g rv else f rv) t Q := by
  refine Safe.bind hc fun rv t' hrv => ?_
  subst hrv
  exact hf t'

namespace Lucky

variable {σ : Type} {m : Monitor Verbs σ} {o : ByteOrder} {params : DccsParameters}
  (hm : Lucky o params.count m)
include hm

theorem regMr {access : Access} {p : Ptr} {len : Nat} {t : σ} :
    Ends m (dccsRegMr access p len) t (·.isSome) := by
  refine safe_bind.2 ⟨not_false, fun a ha => ?_⟩
  obtain ⟨mr, rfl⟩ := Option.isSome_iff_exists.1 (hm _ _ _ ha).1
  exact (rfl : (some mr).isSome = true)

omit hm in
theorem post {c : VProg Int} {text : String} {t : σ} (h : Ends m c t (· = 0)) :
    Ends m (orPerror c text) t (· = 0) := by
  refine Safe.bind h fun rv t hrv => ?_
  rw [if_neg (not_not.2 hrv)]
  exact hrv

theorem postSend {wr : SendWr} {t : σ} : Ends m (dccsRdmaPost wr) t (· = 0) :=
  post ⟨not_false, fun _ h => (hm _ _ _ h).1⟩

theorem postRecv {p : Ptr} {len : Nat} {mr : Option Mr} {t : σ} :
    Ends m (dccsRdmaRecv p len mr) t (· = 0) :=
  post ⟨not_false, fun _ h => (hm _ _ _ h).1⟩

theorem cm {c : CmCall} {text : String} {t : σ} : Ends m (orPerror (Call.cm c) text) t (· = 0) :=
  post ⟨not_false, fun _ h => (hm _ _ _ h).1⟩

theorem connect {t : σ} : Ends m (RdmaExec.connect params) t (· = 0) := by
  unfold RdmaExec.connect
  cases roleOf params with
  | client =>
    refine ends_orElse hm.cm fun _ => ends_orElse hm.cm fun _ => ends_orElse hm.cm fun _ =>
      ends_orElse hm.cm fun _ => ?_
    exact ⟨not_false, fun _ _ => rfl⟩
  | server =>
    refine ends_orElse hm.cm fun _ => ends_orElse hm.cm fun _ => ends_orElse hm.cm fun _ =>
      ends_orElse hm.cm fun _ => ends_orElse hm.cm fun _ => ?_
    exact ⟨not_false, fun _ _ => rfl⟩

theorem recvComp {t : σ} : Ends m dccsRdmaRecvComp t (· = 1) := by
  refine safe_bind.2 ⟨not_false, fun a ha => ?_⟩
  obtain rfl : a = .got .good [] := (hm _ _ _ ha).2
  simp

theorem sendComp {t : σ} : Ends m (dccsRdmaSendComp 1) t (· = 1) := by
  refine safe_bind.2 (safe_bind.2 ⟨not_false, fun a ha => ?_⟩)
  obtain rfl : a = .got .good [] := (hm _ _ _ ha).2
  simp [sendCompFrom]

omit hm in
theorem whileZero {comp : VProg Int} {t : σ} (h : Ends m comp t (· = 1)) :
    Ends m (RdmaOpera.whileZero comp) t (· = 1) :=
  safe_whileZero (h.mono fun rv _ hrv => ⟨by omega, hrv⟩)

omit hm in
theorem waitStep {post comp : VProg Int} {e₁ e₂ : String} {t : σ} (hpost : Ends m post t (· = 0))
    (hcomp : ∀ t', Ends m comp t' (· = 1)) :
    Ends m (RdmaOpera.waitStep post comp e₁ e₂) t (· = (1, true)) := by
  refine Safe.bind hpost fun rv t' hrv => ?_
  rw [if_neg (not_not.2 hrv)]
  refine Safe.bind (whileZero (hcomp t')) fun rv t' hrv => ?_
  rw [if_neg (by omega)]
  exact Prod.ext hrv rfl

theorem recvStep {p : Ptr} {len : Nat} {mr : Option Mr} {e₁ e₂ : String} {t : σ} :
    Ends m (RdmaOpera.recvStep p len mr e₁ e₂) t (· = (1, true)) :=
      waitStep hm.postRecv fun _ => hm.recvComp

theorem sendStep {p : Ptr} {len : Nat} {mr : Option Mr} {e₁ e₂ : String} {t : σ} :
    Ends m (RdmaOpera.sendStep p len mr e₁ e₂) t (· = (1, true)) :=
      waitStep hm.postSend fun _ => hm.sendComp

/-! ### The phases -/

variable (h : Accepted params)
include h

theorem allocateMr {bufBase : Ptr} {bufferLength : Nat} {mr : Option Mr} {t : σ} :
    Ends m (RdmaOpera.allocateMr params bufBase bufferLength mr) t (·.isSome) := by
  have hverb := h.scanned.verb
  unfold RdmaOpera.allocateMr
  cases hv : params.verb with
  | None => exact absurd hv hverb
  | Send | Read | Write => exact hm.regMr

theorem allocateOne {n : Nat} {s : AllocState} {t : σ} (hn : n < params.count)
    (hs : Prepared params.count n s.requests ∧ (0 < n → s.mr.isSome)) :
    Ends m (RdmaOpera.allocateOne params n s) t fun s' =>
      Prepared params.count (n + 1) s'.requests ∧ (0 < n + 1 → s'.mr.isSome) := by
  refine safe_ite.2 ⟨fun h0 => absurd h0 h.quotient_pos.ne', fun h0 => ?_⟩
  refine Safe.bind (R := fun (s' : AllocState) _ => s'.requests = s.requests ∧ s'.mr.isSome) ?_
    fun s' t' hs' => ?_
  · refine safe_ite.2 ⟨fun _ => ?_, fun hoff => ⟨rfl, hs.2 ?_⟩⟩
    · refine Safe.bind (R := fun _ _ => True) ⟨not_false, fun _ _ => trivial⟩ fun bufBase t' _ => ?_
      exact Safe.bind (hm.allocateMr h) fun mr t' hmr => ⟨rfl, hmr⟩
    · by_contra hn0
      obtain rfl : n = 0 := by omega
      exact hoff (Nat.zero_mod _)
  · obtain ⟨hreq, hmr⟩ := hs'
    exact ⟨hreq ▸ hs.1.extend hn ⟨hmr, h.scanned.verb⟩, fun _ => hmr⟩

theorem allocateBuffer {t : σ} :
    Ends m (RdmaOpera.allocateBuffer (List.replicate params.count {}) params) t fun r =>
      r.1 = 0 ∧ Prepared params.count params.count r.2 := by
  have hmr := h.checked.2.2.1
  refine safe_ite.2 ⟨fun h0 => by omega, fun _ => ?_⟩
  refine Safe.bind (safe_forN (fun n s _ => Prepared params.count n s.requests ∧ (0 < n → s.mr.isSome))
    ⟨⟨by simp, by simp⟩, by simp⟩ fun n s t' hn hs => hm.allocateOne h hn hs) fun s t' hs => ?_
  exact ⟨rfl, hs.1⟩

omit h

omit hm in
theorem failure {mrArray mrCount : Mr} {mrInfos var : Ptr} {rv : Int} {t : σ} :
    Ends m (MrInfo.failure (some mrArray) (some mrCount) mrInfos var rv) t (· = rv) := by
  simp [MrInfo.failure, MrInfo.outDeregMrCount, MrInfo.outFreeBuf, dccsDeregMr, NoError, IsLogError]

/-- A region registered for the exchange. -/
theorem regMr_bind {α : Type} {access : Access} {p : Ptr} {len : Nat} {f : Option Mr → VProg α}
    {t : σ} {Q : α → Prop} (hf : ∀ mr t', Ends m (f (some mr)) t' Q) :
    Ends m (dccsRegMr access p len >>= f) t Q := by
  refine Safe.bind hm.regMr fun a t' ha => ?_
  obtain ⟨mr, rfl⟩ := Option.isSome_iff_exists.1 ha
  exact hf mr t'

theorem malloc_bind {α : Type} {bytes : List UInt8} {f : Option Ptr → VProg α}
    {t : σ} {Q : α → Prop} (hf : ∀ p t', Ends m (f (some p)) t' Q) :
    Ends m (Call.malloc bytes >>= f) t Q := by
  refine safe_bind.2 ⟨not_false, fun a ha => ?_⟩
  obtain ⟨p, rfl⟩ := Option.isSome_iff_exists.1 (hm _ _ _ ha).1
  exact hf p _

theorem getRemoteMrInfo (hc : params.count * requestSize < 2 ^ 64) {requests : List DccsRequest}
    {t : σ} (hr : Prepared params.count params.count requests) :
    Ends m (RdmaOpera.getRemoteMrInfo o requests params.count) t fun r =>
      r.1 = 1 ∧ Prepared params.count params.count r.2 := by
  have hsize : params.count * mrInfoSize < 2 ^ 64 :=
    by simp only [requestSize, mrInfoSize] at *; omega
  refine hm.malloc_bind fun mrInfos t' => ?_
  refine safe_bind.2 ⟨not_false, fun rcountVar _ => ?_⟩
  refine hm.regMr_bind fun mrCount t' => hm.regMr_bind fun mrArray t' => ?_
  refine Safe.bind hm.recvStep fun r t' hrv => ?_
  subst hrv
  refine safe_ite.2 ⟨fun hf => absurd rfl hf, fun _ => ?_⟩
  refine safe_bind.2 (safe_bind.2 ⟨not_false, fun bytes hb => ?_⟩)
  have hbytes : o.nat bytes = params.count := by
    rw [(hm _ _ _ hb).2, ByteOrder.nat_bytes, Nat.mod_eq_of_lt]
    simp only [requestSize] at hc; omega
  refine safe_ite.2 ⟨fun hne => absurd hbytes hne, fun _ => ?_⟩
  refine Safe.bind hm.recvStep fun r t' hrv => ?_
  subst hrv
  refine safe_ite.2 ⟨fun hf => absurd rfl hf, fun _ => ?_⟩
  refine safe_ite.2 ⟨fun hne => absurd (sizeT_of_lt hsize) hne, fun _ => ?_⟩
  refine safe_bind.2 ⟨not_false, fun infos _ => ?_⟩
  exact Safe.bind failure fun rv t' hrv => ⟨hrv, hr.storeMrInfos⟩

theorem sendLocalMrInfo (hc : params.count * requestSize < 2 ^ 64) {requests : List DccsRequest}
    {t : σ} (hr : Prepared params.count params.count requests) :
    Ends m (RdmaOpera.sendLocalMrInfo o requests params.count) t (· = 1) := by
  have hsize : params.count * mrInfoSize < 2 ^ 64 :=
    by simp only [requestSize, mrInfoSize] at *; omega
  refine safe_ite.2 ⟨fun hne => absurd (sizeT_of_lt hsize) hne, fun _ => ?_⟩
  have hinfos : localMrInfos o requests params.count =
      some ((List.range params.count).flatMap
        fun n => (localMrInfo o (reqAt requests n)).getD []) :=
    if_pos fun n hn => (hr.2 n hn).1
  rw [hinfos]
  refine hm.malloc_bind fun mrInfos t' => ?_
  refine safe_bind.2 ⟨not_false, fun countVar _ => ?_⟩
  refine hm.regMr_bind fun mrCount t' => hm.regMr_bind fun mrArray t' => ?_
  refine Safe.bind hm.sendStep fun r t' hrv => ?_
  subst hrv
  refine safe_ite.2 ⟨fun hf => absurd rfl hf, fun _ => ?_⟩
  refine Safe.bind hm.sendStep fun r t' hrv => ?_
  subst hrv
  exact failure

theorem exchangeMrInfo (hc : params.count * requestSize < 2 ^ 64) {requests : List DccsRequest}
    {t : σ} (hr : Prepared params.count params.count requests) :
    Ends m (RdmaExec.exchangeMrInfo o requests params) t fun r =>
      0 ≤ r.1 ∧ Prepared params.count params.count r.2 := by
  refine safe_ite.2 ⟨fun _ => ?_, fun _ => ⟨Int.le_refl 0, hr⟩⟩
  cases roleOf params with
  | client =>
    refine Safe.bind (hm.getRemoteMrInfo hc hr) fun r t' hr' => ?_
    exact safe_ite.2 ⟨fun hneg => by omega, fun _ => ⟨by omega, hr'.2⟩⟩
  | server =>
    refine Safe.bind (hm.sendLocalMrInfo hc hr) fun rv t' hrv => ?_
    exact safe_ite.2 ⟨fun hneg => by omega, fun _ => ⟨by omega, hr⟩⟩

/-! ### Rounds -/

theorem sendAndWaitOne {n : Nat} {s : SendState} {t : σ}
    (hs : Prepared params.count params.count s.requests ∧ s.failedCount = 0) :
    Ends m (RdmaOpera.sendAndWaitOne params.count n s) t fun s' =>
      Prepared params.count params.count s'.requests ∧ s'.failedCount = 0 := by
  obtain ⟨hr, hf⟩ := hs
  refine Safe.bind (R := fun rv _ => rv = 0) ?_ fun rv t' hrv => ?_
  · unfold postRequest
    cases requestWr (reqAt s.requests n) (if n = params.count - 1 then true else s.signaled) with
    | some wr => exact hm.postSend
    | none => rfl
  · subst hrv
    have hstart := fun start => hr.update (n := n) (r := { reqAt s.requests n with start }) rfl rfl
    refine safe_bind.2 ⟨not_false,
      fun start _ => safe_ite.2 ⟨fun _ => ?_, fun _ => ⟨hstart start, ?_⟩⟩⟩
    · refine Safe.bind hm.sendComp fun rv t' hrv => ?_
      refine safe_bind.2 ⟨not_false, fun end_ _ => ⟨(hstart start).update rfl rfl, ?_⟩⟩
      simp only [hrv]
      exact hf
    · simpa using hf

theorem clientRound {n : Nat} {requests : List DccsRequest} {t : σ}
    (hr : Prepared params.count params.count requests) :
    Ends m (RdmaExec.clientRound params n requests) t (Prepared params.count params.count) := by
  refine Safe.bind (R := fun r _ => r.1 = 0 ∧ Prepared params.count params.count r.2) ?_
    fun r t' hr' => ?_
  · refine safe_bind.2 ⟨not_false, fun _ _ => ?_⟩
    refine Safe.bind (safe_forN (fun _ s _ => Prepared params.count params.count s.requests ∧ s.failedCount = 0)
      ⟨hr, rfl⟩ fun n s t' _ hs => hm.sendAndWaitOne hs) fun s t' hs => ?_
    exact safe_bind.2 ⟨not_false, fun _ _ => ⟨by simp [hs.2], hs.1⟩⟩
  · refine safe_ite.2 ⟨fun hneg => by omega, fun _ => ?_⟩
    exact safe_bind.2 ⟨not_false, fun _ _ => hr'.2⟩

theorem serverRound {n : Nat} {requests : List DccsRequest} {t : σ}
    (hr : Prepared params.count params.count requests) :
    Ends m (RdmaExec.serverRound params n requests) t (Prepared params.count params.count) := by
  unfold RdmaExec.serverRound
  cases params.verb with
  | Read | Write | None => exact hr
  | Send =>
    refine Safe.bind (R := fun rv _ => rv = 0) ?_ fun rv t' hrv => ?_
    · refine Safe.bind (safe_forN (fun _ failedCount _ => failedCount = 0) rfl
        fun n failedCount t' _ hf => ?_)
        fun failedCount t' hf => by simp [hf]
      refine Safe.bind hm.postRecv fun rv t' hrv => ?_
      refine Safe.bind (R := fun failedCount _ => failedCount = 0) (by simp [countFailure, hrv, hf])
        fun fc t' hfc => ?_
      refine Safe.bind (whileZero hm.recvComp) fun rv t' hrv => ?_
      simp [countFailure, hrv, hfc]
    · exact safe_ite.2 ⟨fun hneg => by omega, fun _ => hr⟩

theorem rounds {requests : List DccsRequest} {t : σ}
    (hr : Prepared params.count params.count requests) :
    Ends m (RdmaExec.rounds requests params) t (Prepared params.count params.count) := by
  unfold RdmaExec.rounds
  cases roleOf params with
  | client =>
    exact safe_forN (fun _ r _ => Prepared params.count params.count r) hr
      fun _ _ _ _ h => hm.clientRound h
  | server =>
    exact safe_forN (fun _ r _ => Prepared params.count params.count r) hr
      fun _ _ _ _ h => hm.serverRound h

theorem sendMessage {buf : Ptr} {length : Nat} {t : σ} :
    Ends m (RdmaOpera.sendMessage buf length) t (· = 1) := by
  refine hm.regMr_bind fun mr t' => Safe.bind hm.sendStep fun r t' hr => ?_
  subst hr
  exact safe_bind.2 ⟨not_false, fun _ _ => rfl⟩

theorem recvMessage {buf : Ptr} {length : Nat} {t : σ} :
    Ends m (RdmaOpera.recvMessage buf length) t (· = 1) := by
  refine hm.regMr_bind fun mr t' => Safe.bind hm.recvStep fun r t' hr => ?_
  subst hr
  exact safe_bind.2 ⟨not_false, fun _ _ => rfl⟩

theorem endMessage {t : σ} : Ends m (RdmaExec.endMessage params) t (· = 1) := by
  unfold RdmaExec.endMessage
  cases roleOf params with
  | client =>
    refine safe_bind.2 ⟨not_false, fun buf _ => Safe.bind hm.sendMessage fun rv t' hrv => ?_⟩
    refine safe_ite.2 ⟨fun hneg => by omega, fun _ => safe_bind.2 ⟨not_false, fun _ _ => hrv⟩⟩
  | server =>
    refine safe_bind.2 ⟨not_false, fun buf _ => Safe.bind hm.recvMessage fun rv t' hrv => ?_⟩
    refine safe_ite.2 ⟨fun hneg => by omega, fun _ => safe_bind.2 ⟨not_false, fun _ _ => hrv⟩⟩

/-! ### The whole run -/

theorem untilEnd (h : Accepted params) (hc : params.count * requestSize < 2 ^ 64) {t : σ} :
    Ends m (RdmaExec.untilEnd o params) t fun exit =>
      ∃ requests, exit = .ended requests 1 ∧ Prepared params.count params.count requests := by
  refine Safe.bind hm.connect fun rv t' hrv => safe_ite.2 ⟨fun hne => absurd hrv hne, fun _ => ?_⟩
  refine safe_ite.2 ⟨fun hne => absurd (sizeT_of_lt hc) hne, fun _ => ?_⟩
  refine Safe.bind (hm.allocateBuffer h) fun r t' hr =>
    safe_ite.2 ⟨fun hne => absurd hr.1 hne, fun _ => ?_⟩
  refine Safe.bind (hm.exchangeMrInfo hc hr.2) fun r t' hr =>
    safe_ite.2 ⟨fun hne => by omega, fun _ => ?_⟩
  refine Safe.bind (hm.rounds hr.2) fun requests t' hr => Safe.bind hm.endMessage
    fun rv t' hrv => ?_
  subst hrv
  exact safe_ite.2 ⟨fun hne => by omega, fun _ => ⟨requests, rfl, hr⟩⟩

omit hm in
theorem finish (h : Accepted params) {requests : List DccsRequest} {t : σ}
    (hr : Prepared params.count params.count requests) :
    Ends m (RdmaExec.finish params (.ended requests 1)) t (· = 1) := by
  obtain ⟨hc, -, hmr, -, -⟩ := h.checked
  refine Safe.bind (R := fun _ _ => True) ?_ fun _ t' _ => Safe.bind (R := fun _ _ => True) ?_
    fun _ t' _ => ?_
  · refine safe_ite.2 ⟨fun h0 => by omega, fun _ => ?_⟩
    refine Safe.bind (safe_forN (fun _ _ _ => True) trivial fun n chunks t' _ _ => ?_)
      fun chunks t' _ => ?_
    · exact safe_bind.2 ⟨not_false, fun _ _ => trivial⟩
    · exact ⟨not_false, fun _ _ => trivial⟩
  · refine safe_ite.2 ⟨fun h0 => by omega, fun _ => ?_⟩
    refine safe_forN (fun _ _ _ => True) trivial fun n _ t' hn _ => ?_
    refine safe_ite.2 ⟨fun h0 => absurd h0 h.quotient_pos.ne',
      fun _ => safe_ite.2 ⟨fun _ => trivial, fun _ => ?_⟩⟩
    obtain ⟨mr, hmr⟩ := Option.isSome_iff_exists.1 (hr.2 n hn).1
    simp [hmr, dccsDeregMr, NoError, IsLogError]
  · simp only [RdmaExec.outDisconnect]
    cases roleOf params <;> simp [dccsClientDisconnect, dccsServerDisconnect, NoError, IsLogError]


end Lucky

end RdmaOpera.RdmaExec
