import RdmaOpera.RdmaMain

/-!
# Which calls the functions make

A property of calls that holds of all calls of some kinds (`Manages`, `Obtains`, `Releases`,
`Sends`, `Receives`) holds of every call of the functions that make calls of these kinds only,
whatever the library answers.
-/

namespace RdmaOpera

open Lib Prog

/-- Setting the connection up and taking it down. -/
structure Manages (P : VOp → Prop) : Prop where
  cm : ∀ c, P (.cm c)
  cmRelease : ∀ r, P (.cmRelease r)
  logError : ∀ format, P (.logError format)

/-- Blocks and regions. -/
structure Obtains (P : VOp → Prop) : Prop where
  malloc : ∀ bytes, P (.malloc bytes)
  mallocRandom : ∀ size, P (.mallocRandom size)
  stackVar : ∀ bytes, P (.stackVar bytes)
  regMr : ∀ access p len, P (.regMr access p len)
  logError : ∀ format, P (.logError format)

structure Releases (P : VOp → Prop) : Prop where
  deregMr : ∀ mr, P (.deregMr mr)
  free : ∀ p, P (.free p)
  leave : ∀ p, P (.leave p)

structure Sends (P : VOp → Prop) : Prop where
  postSend : ∀ wr, P (.postSend wr)
  pollSend : ∀ num, P (.pollSend num)
  getCycles : P .getCycles
  logError : ∀ format, P (.logError format)

structure Receives (P : VOp → Prop) : Prop where
  postRecv : ∀ recv, P (.postRecv recv)
  pollRecv : P .pollRecv
  logError : ∀ format, P (.logError format)

section
variable {P : VOp → Prop} {α : Type}

theorem calls_logError (hlog : ∀ format, P (.logError format)) {format : String} {a : α} :
    Calls P (do Call.logError format; pure a) := .bind ⟨hlog _, fun _ => trivial⟩ fun _ => trivial

theorem calls_orPerror (hlog : ∀ format, P (.logError format)) {c : VProg Int} {text : String}
    (h : Calls P c) :
    Calls P (orPerror c text) := h.bind fun _ => .ite (calls_logError hlog) trivial

theorem calls_whileZero {comp : VProg Int} (h : Calls P comp) : Calls P (whileZero comp) :=
  h.bind fun _ => .ite trivial trivial

theorem calls_waitStep (hlog : ∀ format, P (.logError format)) {post comp : VProg Int}
    {e₁ e₂ : String} (hpost : Calls P post) (hcomp : Calls P comp) :
    Calls P (waitStep post comp e₁ e₂) := by
  refine hpost.bind fun _ => .ite (calls_logError hlog) ?_
  exact (calls_whileZero hcomp).bind fun _ => .ite (calls_logError hlog) trivial

namespace Manages

variable (h : Manages P)
include h

theorem connect (params : DccsParameters) : Calls P (RdmaExec.connect params) := by
  have hcm : ∀ c text, Calls P (orPerror (Call.cm c) text) :=
    fun c text => calls_orPerror h.logError ⟨h.cm c, fun _ => trivial⟩
  unfold RdmaExec.connect
  cases RdmaExec.roleOf params with
  | client =>
    refine (hcm _ _).bind fun _ =>
      .ite trivial ((hcm _ _).bind fun _ => .ite ?_ ((hcm _ _).bind fun _ =>
      .ite ?_ ((hcm _ _).bind fun _ => .ite ?_ ?_))) <;>
      simp [Connect.outDestroyListenEp, Connect.outFreeAddrinfo, Call.cmRelease,
        Prog.op, h.cmRelease]
  | server =>
    refine (hcm _ _).bind fun _ =>
      .ite trivial ((hcm _ _).bind fun _ => .ite ?_ ((hcm _ _).bind fun _ =>
      .ite ?_ ((hcm _ _).bind fun _ => .ite ?_ ((hcm _ _).bind fun _ => .ite ?_ ?_)))) <;>
      simp [Listen.outDestroyAcceptEp, Listen.outDestroyListenEp, Listen.outFreeAddrinfo,
        Call.cmRelease, Prog.op,
        h.cmRelease]

theorem outDisconnect (params : DccsParameters) (rv : Int) :
    Calls P (RdmaExec.outDisconnect params rv) := by
  unfold RdmaExec.outDisconnect
  cases RdmaExec.roleOf params <;> simp [dccsClientDisconnect, dccsServerDisconnect,
    Call.cmRelease, Prog.op, h.cmRelease]

end Manages

namespace Obtains

variable (h : Obtains P)
include h

theorem dccsRegMr {access : Access} {p : Ptr} {len : Nat} :
    Calls P (RdmaOpera.dccsRegMr access p len) := by
  refine .bind ⟨h.regMr _ _ _, fun _ => trivial⟩ fun mr => ?_
  cases mr with
  | none => exact calls_logError h.logError
  | some mr => trivial

theorem allocateOne (params : DccsParameters) (n : Nat) (s : AllocState) :
    Calls P (RdmaOpera.allocateOne params n s) := by
  refine .ite trivial
    (.bind (.ite (.bind ⟨h.mallocRandom _, fun _ => trivial⟩ fun _ => .bind ?_ fun _ => trivial) trivial)
    fun _ => trivial)
  unfold allocateMr
  cases params.verb with
  | None => exact calls_logError h.logError
  | Send | Read | Write => exact h.dccsRegMr

theorem allocateBuffer (requests : List DccsRequest) (params : DccsParameters) :
    Calls P (RdmaOpera.allocateBuffer requests params) :=
  .ite trivial ((calls_forN (h.allocateOne params) _ _).bind fun _ => trivial)

end Obtains

namespace Releases

variable (h : Releases P)
include h

theorem dccsDeregMr (mr : Option Mr) : Calls P (RdmaOpera.dccsDeregMr mr) := by
  cases mr with
  | none => trivial
  | some mr => exact ⟨h.deregMr mr, fun _ => trivial⟩

theorem outFreeBuf (mrInfos var : Ptr) (rv : Int) : Calls P (MrInfo.outFreeBuf mrInfos var rv) :=
  .bind ⟨h.free _, fun _ => trivial⟩ fun _ => .bind ⟨h.leave _, fun _ => trivial⟩ fun _ => trivial

theorem outDeregMrCount (mrCount : Option Mr) (mrInfos var : Ptr) (rv : Int) :
    Calls P (MrInfo.outDeregMrCount mrCount mrInfos var rv) :=
      (h.dccsDeregMr _).bind fun _ => h.outFreeBuf _ _ _

theorem failure (mrArray mrCount : Option Mr) (mrInfos var : Ptr) (rv : Int) :
    Calls P (MrInfo.failure mrArray mrCount mrInfos var rv) :=
      (h.dccsDeregMr _).bind fun _ => h.outDeregMrCount _ _ _ _

theorem deallocateBuffer (requests : List DccsRequest) (params : DccsParameters) :
    Calls P (RdmaOpera.deallocateBuffer requests params) := by
  have hone : ∀ n u, Calls P (deallocateOne requests params n u) := fun n u =>
    .ite trivial (.ite trivial ((h.dccsDeregMr _).bind fun _ => ⟨h.free _, fun _ => trivial⟩))
  exact .ite trivial (calls_forN hone _ _)

end Releases

namespace Sends

variable (h : Sends P)
include h

theorem dccsRdmaPost (wr : SendWr) : Calls P (RdmaOpera.dccsRdmaPost wr) :=
  calls_orPerror h.logError ⟨h.postSend wr, fun _ => trivial⟩

theorem sendCompFrom (num : Int) (fuel : Nat) (wcs : List Wc) :
    Calls P (RdmaOpera.sendCompFrom num fuel wcs) := by
  induction fuel generalizing wcs with
  | zero => trivial
  | succ fuel ih =>
    refine .ite (.bind ⟨h.pollSend _, fun _ => trivial⟩ fun poll => ?_) trivial
    cases poll with
    | failed => exact calls_logError h.logError
    | got wc rest => exact .ite (ih _) (calls_logError h.logError)

theorem dccsRdmaSendComp (num : Int) : Calls P (RdmaOpera.dccsRdmaSendComp num) :=
  (h.sendCompFrom num _ _).bind fun _ => trivial

theorem sendStep (p : Ptr) (len : Nat) (mr : Option Mr) (e₁ e₂ : String) :
    Calls P (RdmaOpera.sendStep p len mr e₁ e₂) :=
  calls_waitStep h.logError (h.dccsRdmaPost _) (h.dccsRdmaSendComp 1)

theorem sendAndWaitRequests (requests : List DccsRequest) (params : DccsParameters) :
    Calls P (RdmaOpera.sendAndWaitRequests requests params) := by
  have hcycles : Calls P Call.getCycles := ⟨h.getCycles, fun _ => trivial⟩
  refine hcycles.bind fun _ => .bind (calls_forN (fun n s => ?_) _ _) fun _ =>
    hcycles.bind fun _ => trivial
  refine .bind ?_ fun _ => hcycles.bind fun _ => .ite ?_ trivial
  · unfold postRequest
    cases requestWr (reqAt s.requests n) (if n = params.count - 1 then true else s.signaled) with
    | none => trivial
    | some wr => exact h.dccsRdmaPost wr
  · exact (h.dccsRdmaSendComp 1).bind fun _ => hcycles.bind fun _ => trivial

theorem clientRound (hreport : ∀ requests params, P (.report requests params))
    (params : DccsParameters) (n : Nat) (requests : List DccsRequest) :
    Calls P (RdmaExec.clientRound params n requests) := by
  have hdone : ∀ requests, Calls P (do Call.report requests params; pure requests) :=
    fun _ => .bind ⟨hreport _ _, fun _ => trivial⟩ fun _ => trivial
  refine (h.sendAndWaitRequests requests params).bind fun _ => .ite ?_ (hdone _)
  exact .bind ⟨h.logError _, fun _ => trivial⟩ fun _ => hdone _

end Sends

namespace Receives

variable (h : Receives P)
include h

theorem dccsRdmaRecv (p : Ptr) (len : Nat) (mr : Option Mr) :
    Calls P (RdmaOpera.dccsRdmaRecv p len mr) :=
  calls_orPerror h.logError ⟨h.postRecv _, fun _ => trivial⟩

theorem recvComp : Calls P dccsRdmaRecvComp := by
  refine .bind ⟨h.pollRecv, fun _ => trivial⟩ fun poll => ?_
  cases poll with
  | failed => exact calls_logError h.logError
  | got wc rest => exact .ite trivial (calls_logError h.logError)

theorem recvStep (p : Ptr) (len : Nat) (mr : Option Mr) (e₁ e₂ : String) :
    Calls P (RdmaOpera.recvStep p len mr e₁ e₂) :=
  calls_waitStep h.logError (h.dccsRdmaRecv _ _ _) h.recvComp

theorem serverRound (params : DccsParameters) (n : Nat) (requests : List DccsRequest) :
    Calls P (RdmaExec.serverRound params n requests) := by
  have hcount : ∀ (failed : Prop) [Decidable failed] fc, Calls P (countFailure failed fc) :=
    fun _ _ _ => .ite (calls_logError h.logError) trivial
  unfold RdmaExec.serverRound
  cases params.verb with
  | Read | Write | None => trivial
  | Send =>
    refine .bind (.bind (calls_forN (fun n fc => ?_) _ _) fun _ => trivial) fun rv =>
      .ite (calls_logError h.logError) trivial
    exact (h.dccsRdmaRecv _ _ _).bind fun _ => (hcount _ _).bind fun _ =>
      (calls_whileZero h.recvComp).bind fun _ => hcount _ _

end Receives

theorem calls_printSha1sum (hload : ∀ p len, P (.load p len))
    (hdigest : ∀ count length chunks, P (.logDigest count length chunks))
    (hlog : ∀ format, P (.logError format)) (requests : List DccsRequest) (count : Nat) :
    Calls P (printSha1sum requests count) := by
  refine .ite ⟨hlog _, fun _ => trivial⟩ (.bind (calls_forN (fun n chunks => ?_) _ _)
    fun _ => ⟨hdigest _ _ _, fun _ => trivial⟩)
  exact .bind ⟨hload _ _, fun _ => trivial⟩ fun _ => trivial

theorem calls_rounds (hs : Sends P) (hr : Receives P)
    (hreport : ∀ requests params, P (.report requests params)) (requests : List DccsRequest)
    (params : DccsParameters) : Calls P (RdmaExec.rounds requests params) := by
  unfold RdmaExec.rounds
  cases RdmaExec.roleOf params with
  | client => exact calls_forN (hs.clientRound hreport params) _ _
  | server => exact calls_forN (hr.serverRound params) _ _

theorem calls_getRemoteMrInfo (ho : Obtains P) (hr : Receives P) (hrel : Releases P)
    (hload : ∀ p len, P (.load p len)) (o : ByteOrder) (requests : List DccsRequest) (count : Nat) :
    Calls P (getRemoteMrInfo o requests count) := by
  refine .bind ⟨ho.malloc _, fun _ => trivial⟩ fun mrInfos => ?_
  cases mrInfos with
  | none => trivial
  | some mrInfos =>
    refine .bind ⟨ho.stackVar _, fun _ => trivial⟩ fun rcountVar =>
      ho.dccsRegMr.bind fun mrCount => ?_
    cases mrCount with
    | none => exact (hrel.outFreeBuf _ _ _).bind fun _ => trivial
    | some mrCount =>
      refine ho.dccsRegMr.bind fun mrArray => ?_
      cases mrArray with
      | none => exact (hrel.outDeregMrCount _ _ _ _).bind fun _ => trivial
      | some mrArray =>
        have hfail : ∀ rv (requests : List DccsRequest),
          Calls P ((·, requests) <$> MrInfo.failure (some mrArray)
            (some mrCount) mrInfos rcountVar rv) :=
              fun rv _ => (hrel.failure _ _ _ _ rv).bind fun _ => trivial
        refine (hr.recvStep _ _ _ _ _).bind fun r => .ite (hfail _ _) ?_
        refine .bind (.bind ⟨hload _ _, fun _ => trivial⟩ fun _ => trivial) fun rcount => .ite ?_ ?_
        · exact .bind ⟨hr.logError _, fun _ => trivial⟩ fun _ => hfail _ _
        · refine (hr.recvStep _ _ _ _ _).bind fun r => .ite (hfail _ _) (.ite trivial ?_)
          exact .bind ⟨hload _ _, fun _ => trivial⟩ fun _ => hfail _ _

theorem calls_sendLocalMrInfo (ho : Obtains P) (hs : Sends P) (hrel : Releases P) (o : ByteOrder)
    (requests : List DccsRequest) (count : Nat) : Calls P (sendLocalMrInfo o requests count) := by
  refine .ite trivial ?_
  cases localMrInfos o requests count with
  | none => trivial
  | some bytes =>
    refine .bind ⟨ho.malloc _, fun _ => trivial⟩ fun mrInfos => ?_
    cases mrInfos with
    | none => trivial
    | some mrInfos =>
      refine .bind ⟨ho.stackVar _, fun _ => trivial⟩ fun countVar =>
        ho.dccsRegMr.bind fun mrCount => ?_
      cases mrCount with
      | none => exact hrel.outFreeBuf _ _ _
      | some mrCount =>
        refine ho.dccsRegMr.bind fun mrArray => ?_
        cases mrArray with
        | none => exact hrel.outDeregMrCount _ _ _ _
        | some mrArray =>
          refine (hs.sendStep _ _ _ _ _).bind fun r => .ite (hrel.failure _ _ _ _ _) ?_
          exact (hs.sendStep _ _ _ _ _).bind fun r => hrel.failure _ _ _ _ _

theorem calls_sendMessage (ho : Obtains P) (hs : Sends P) (hrel : Releases P) (buf : Ptr)
    (length : Nat) :
    Calls P (sendMessage buf length) := by
  refine ho.dccsRegMr.bind fun mr => ?_
  cases mr with
  | none => trivial
  | some mr =>
    exact (hs.sendStep _ _ _ _ _).bind fun _ => (hrel.dccsDeregMr _).bind fun _ => trivial

theorem calls_recvMessage (ho : Obtains P) (hr : Receives P) (hrel : Releases P) (buf : Ptr)
    (length : Nat) :
    Calls P (recvMessage buf length) := by
  refine ho.dccsRegMr.bind fun mr => ?_
  cases mr with
  | none => trivial
  | some mr =>
    exact (hr.recvStep _ _ _ _ _).bind fun _ => (hrel.dccsDeregMr _).bind fun _ => trivial

theorem calls_exchangeMrInfo (ho : Obtains P) (hs : Sends P) (hr : Receives P) (hrel : Releases P)
    (hload : ∀ p len, P (.load p len)) (o : ByteOrder) (requests : List DccsRequest)
    (params : DccsParameters) : Calls P (RdmaExec.exchangeMrInfo o requests params) := by
  refine .ite ?_ trivial
  have hlog : ∀ {rv : Int} {requests : List DccsRequest}, Calls P (do
      Call.logError "Failed to get remote MR info.\n"
      pure (rv, requests)) := calls_logError hs.logError
  cases RdmaExec.roleOf params with
  | client =>
    refine (calls_getRemoteMrInfo ho hr hrel hload o requests params.count).bind fun r => ?_
    exact .ite hlog trivial
  | server =>
    refine (calls_sendLocalMrInfo ho hs hrel o requests params.count).bind fun rv => ?_
    exact .ite hlog trivial

theorem calls_endMessage (ho : Obtains P) (hs : Sends P) (hr : Receives P) (hrel : Releases P)
    (params : DccsParameters) : Calls P (RdmaExec.endMessage params) := by
  have hleave : ∀ {buf : Ptr} {rv : Int}, Calls P (do Call.leave buf; pure rv) :=
    .bind ⟨hrel.leave _, fun _ => trivial⟩ fun _ => trivial
  unfold RdmaExec.endMessage
  cases RdmaExec.roleOf params with
  | client =>
    refine .bind ⟨ho.stackVar _, fun _ => trivial⟩ fun buf =>
      (calls_sendMessage ho hs hrel buf _).bind fun rv => .ite ?_ hleave
    exact .bind ⟨hs.logError _, fun _ => trivial⟩ fun _ => hleave
  | server =>
    refine .bind ⟨ho.stackVar _, fun _ => trivial⟩ fun buf =>
      (calls_recvMessage ho hr hrel buf _).bind fun rv => .ite ?_ hleave
    exact .bind ⟨hs.logError _, fun _ => trivial⟩ fun _ => hleave

theorem calls_untilEnd (hm : Manages P) (ho : Obtains P) (hs : Sends P) (hr : Receives P)
    (hrel : Releases P) (hload : ∀ p len, P (.load p len))
    (hreport : ∀ requests params, P (.report requests params)) (o : ByteOrder)
    (params : DccsParameters) : Calls P (RdmaExec.untilEnd o params) := by
  refine (hm.connect params).bind fun rv => .ite trivial (.ite trivial ?_)
  refine (ho.allocateBuffer _ params).bind fun r => .ite (calls_logError hm.logError) ?_
  refine (calls_exchangeMrInfo ho hs hr hrel hload o _ params).bind fun r => .ite trivial ?_
  refine (calls_rounds hs hr hreport _ params).bind fun requests => ?_
  exact (calls_endMessage ho hs hr hrel params).bind fun rv => .ite trivial trivial

theorem calls_outDeallocateBuffer (hm : Manages P) (hrel : Releases P) (requests : List DccsRequest)
    (params : DccsParameters) (rv : Int) :
    Calls P (RdmaExec.outDeallocateBuffer requests params rv) :=
  (hrel.deallocateBuffer requests params).bind fun _ => hm.outDisconnect params rv

theorem calls_finish (hm : Manages P) (hrel : Releases P) (hload : ∀ p len, P (.load p len))
    (hdigest : ∀ count length chunks, P (.logDigest count length chunks)) (params : DccsParameters)
    (exit : RdmaExec.Exit) :
    Calls P (RdmaExec.finish params exit) := by
  cases exit with
  | end_ rv => trivial
  | outDisconnect rv => exact hm.outDisconnect params rv
  | outDeallocateBuffer requests rv => exact calls_outDeallocateBuffer hm hrel requests params rv
  | ended requests rv =>
    exact (calls_printSha1sum hload hdigest hm.logError _ _).bind fun _ =>
      calls_outDeallocateBuffer hm hrel requests params rv

end

end RdmaOpera
