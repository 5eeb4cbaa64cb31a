import RdmaOpera.Verbs
import RdmaOpera.Wire

/-!
# The RDMA wrapper library: `dccs_rdma.h`

| here | there |
| --- | --- |
| `dccsConnect`, `dccsListen`                 | `dccs_rdma.h:42-147`; `*id`, `*listen_id` are the endpoints `Ep` |
| `dccsRegMr`, `dccsDeregMr`                  | `:151-180` |
| `dccsRdmaPost`, `dccsRdmaRecv`              | `:184-239`, the three `_with_flags` functions; of `flags` only the signaled bit is ever set |
| `dccsRdmaSendComp`, `dccsRdmaRecvComp`      | `:246-300` |
| `allocateBuffer`, `deallocateBuffer`        | `:307-369` |
| `getRemoteMrInfo`, `sendLocalMrInfo`        | `:376-558` |
| `sendMessage`, `recvMessage`                | `:562-606` |
| `recvRequests`, `sendAndWaitRequests`       | `:671-793` |
| `printSha1sum`                              | `:797-818` |

A `goto` becomes a call of the definition named after its label. Error messages keep the format
string and drop its arguments; other log lines are left out. Dereferencing a null pointer, running
past a block and dividing by zero are `spin`: nothing is said of the program from there on.
-/

namespace RdmaOpera

open Lib Prog

/-! ## Connection setup and teardown -/

/-- `if ((rv = call) != 0) log_perror(text)`. -/
def orPerror (call : VProg Int) (text : String) : VProg Int := do
  let rv ← call
  if rv ≠ 0 then do
    Call.logError text
    pure rv
  else pure rv

def dccsSetConnectionTos (tos : UInt8) : VProg Int :=
  orPerror (Call.cm (.setOption tos)) "rdma_set_option"

namespace Connect

def outFreeAddrinfo (rv : Int) : VProg Int := do
  Call.cmRelease .freeaddrinfo
  pure rv

def outDestroyListenEp (rv : Int) : VProg Int := do
  Call.cmRelease (.destroyEp .id)
  outFreeAddrinfo rv

end Connect

def dccsConnect (tos : UInt8) : VProg Int := do
  let rv ← orPerror (Call.cm .getaddrinfo) "rmda_getaddrinfo"
  if rv ≠ 0 then pure rv else do
  let rv ← orPerror (Call.cm (.createEp .id)) "rdma_create_ep"
  if rv ≠ 0 then Connect.outFreeAddrinfo rv else do
  let rv ← dccsSetConnectionTos tos
  if rv ≠ 0 then Connect.outFreeAddrinfo rv else do
  let rv ← orPerror (Call.cm .connect) "rdma_connect"
  if rv ≠ 0 then Connect.outDestroyListenEp rv else do
  Call.cmRelease .freeaddrinfo
  pure 0

namespace Listen

def outFreeAddrinfo (rv : Int) : VProg Int := do
  Call.cmRelease .freeaddrinfo
  pure rv

def outDestroyListenEp (rv : Int) : VProg Int := do
  Call.cmRelease (.destroyEp .listenId)
  outFreeAddrinfo rv

def outDestroyAcceptEp (rv : Int) : VProg Int := do
  Call.cmRelease (.destroyEp .id)
  outDestroyListenEp rv

end Listen

def dccsListen : VProg Int := do
  let rv ← orPerror (Call.cm .getaddrinfo) "rmda_getaddrinfo"
  if rv ≠ 0 then pure rv else do
  let rv ← orPerror (Call.cm (.createEp .listenId)) "rdma_create_ep"
  if rv ≠ 0 then Listen.outFreeAddrinfo rv else do
  let rv ← orPerror (Call.cm .listen) "rdma_listen"
  if rv ≠ 0 then Listen.outDestroyListenEp rv else do
  let rv ← orPerror (Call.cm .getRequest) "rdma_get_request"
  if rv ≠ 0 then Listen.outDestroyListenEp rv else do
  let rv ← orPerror (Call.cm .accept) "rdma_accept"
  if rv ≠ 0 then Listen.outDestroyAcceptEp rv else do
  Call.cmRelease .freeaddrinfo
  pure 0

def dccsClientDisconnect : VProg Unit := do
  Call.cmRelease .disconnect
  Call.cmRelease (.destroyEp .id)

def dccsServerDisconnect : VProg Unit := do
  Call.cmRelease .disconnect
  Call.cmRelease (.destroyEp .id)
  Call.cmRelease (.destroyEp .listenId)

/-! ## Memory regions, posts and completions -/

/-- `dccs_reg_msgs`, `dccs_reg_read` and `dccs_reg_write`; each names its call when it fails. -/
def dccsRegMr (access : Access) (p : Ptr) (length : Nat) : VProg (Option Mr) := do
  match ← Call.regMr access p length with
  | none => do
    Call.logError (match access with
      | .msgs => "rdma_reg_msgs"
      | .read => "rdma_reg_read"
      | .write => "rdma_reg_write")
    pure none
  | some mr => pure (some mr)

def dccsDeregMr (mr : Option Mr) : VProg Unit := match mr with
  | none => .spin
  | some mr => Call.deregMr mr

/-- `dccs_rdma_send_with_flags`, `dccs_rdma_read_with_flags`, `dccs_rdma_write_with_flags`. -/
def dccsRdmaPost (wr : SendWr) : VProg Int :=
  orPerror (Call.postSend wr) (match wr.verb with
    | .Read => "rdma_post_read"
    | .Write => "rdma_post_write"
    | _ => "rdma_post_send")

/-- `dccs_rdma_send`: always signaled. -/
def dccsRdmaSend (p : Ptr) (length : Nat) (mr : Option Mr) : VProg Int :=
  dccsRdmaPost { verb := .Send, addr := p.addr, len := length, mr := mr, signaled := true }

def dccsRdmaRecv (p : Ptr) (length : Nat) (mr : Option Mr) : VProg Int :=
  orPerror (Call.postRecv { addr := p.addr, len := length, mr := mr }) "rdma_post_recv"

/-- The loop of `dccs_rdma_send_comp` with `wc_arr` filled up to `sum = wcArr.length`. Every turn
adds at least one entry, so `num` turns are all it can take. -/
def sendCompFrom (num : Int) : Nat → List Wc → VProg (Int × List Wc)
  | 0, wcArr => pure (wcArr.length, wcArr)
  | fuel + 1, wcArr =>
    if (wcArr.length : Int) < num then do
      match ← Call.pollSend num.toNat with
      | .failed => do
        Call.logError "ibv_poll_cq() failed, error = %d.\n"
        pure (-1, wcArr)
      | .got wc rest =>
        if ∀ w ∈ wc :: rest, w.success then sendCompFrom num fuel (wcArr ++ wc :: rest)
        else do
          Call.logError "Failed status %s (%d) for wr_id %d\n"
          pure (-1, wcArr ++ wc :: rest)
    else pure (wcArr.length, wcArr)

def dccsRdmaSendComp (num : Int) : VProg Int := do
  let r ← sendCompFrom num num.toNat []
  pure r.1

def dccsRdmaRecvComp : VProg Int := do
  match ← Call.pollRecv with
  | .failed => do
    Call.logError "ibv_poll_cq() failed, error = %d.\n"
    pure (-1)
  | .got wc rest =>
    if wc.success then pure (1 + rest.length)
    else do
      Call.logError "Failed status %s (%d) for wr_id %d\n"
      pure (-1)

/-- `while ((rv = comp) == 0);`. A zero is returned only when no completion was asked for, and then
the loop never ends. -/
def whileZero (comp : VProg Int) : VProg Int := do
  let rv ← comp
  if rv = 0 then .spin else pure rv

/-! ## Buffers -/

structure AllocState where
  requests : List DccsRequest
  bufBase : Ptr := .null
  mr : Option Mr := none

/-- The registration picked by the verb (`:322-335`); an unrecognised verb keeps the last region. -/
def allocateMr (params : DccsParameters) (bufBase : Ptr) (bufferLength : Nat) (mr : Option Mr) :
    VProg (Option Mr) := match params.verb with
  | .Send => dccsRegMr .msgs bufBase bufferLength
  | .Read => dccsRegMr .read bufBase bufferLength
  | .Write => dccsRegMr .write bufBase bufferLength
  | .None => do
    Call.logError "Unrecognized verb %d.\n"
    pure mr

/-- A new buffer and its region. -/
def allocateRegion (params : DccsParameters) (bufferLength : Nat) (s : AllocState) :
    VProg AllocState := do
  let r ← Call.mallocRandom bufferLength
  let bufBase := (r.map Prod.fst).getD .null
  let mr ← allocateMr params bufBase bufferLength s.mr
  pure { s with bufBase := bufBase, mr := mr }

/-- One turn of the loop of `allocate_buffer`. -/
def allocateOne (params : DccsParameters) (n : Nat) (s : AllocState) : VProg AllocState :=
  let countPerMr := params.count / params.mrCount
  let bufferLength := sizeT (countPerMr * params.length)
  let offset := n % countPerMr
  if countPerMr = 0 then .spin else do
  let s ← (if offset = 0 then allocateRegion params bufferLength s else pure s : VProg AllocState)
  pure { s with requests := s.requests.set n { reqAt s.requests n with
    verb := params.verb, buf := s.bufBase.add (offset * params.length), length := params.length,
    mr := s.mr } }

def allocateBuffer (requests : List DccsRequest) (params : DccsParameters) :
    VProg (Int × List DccsRequest) :=
  if params.mrCount = 0 then .spin else do
  let s ← forN params.count (allocateOne params) { requests }
  pure (0, s.requests)

def deallocateOne (requests : List DccsRequest) (params : DccsParameters) (n : Nat) (_ : Unit) :
    VProg Unit :=
  let countPerMr := params.count / params.mrCount
  if countPerMr = 0 then .spin
  else if n % countPerMr ≠ 0 then pure ()
  else do
    dccsDeregMr (reqAt requests n).mr
    Call.free (reqAt requests n).buf

def deallocateBuffer (requests : List DccsRequest) (params : DccsParameters) : VProg Unit :=
  if params.mrCount = 0 then .spin else forN params.count (deallocateOne requests params) ()

/-! ## Exchange of memory regions -/

section exchange
variable (o : ByteOrder)

namespace MrInfo

def outFreeBuf (mrInfos var : Ptr) (rv : Int) : VProg Int := do
  Call.free mrInfos
  Call.leave var
  pure rv

def outDeregMrCount (mrCount : Option Mr) (mrInfos var : Ptr) (rv : Int) : VProg Int := do
  dccsDeregMr mrCount
  outFreeBuf mrInfos var rv

def failure (mrArray mrCount : Option Mr) (mrInfos var : Ptr) (rv : Int) : VProg Int := do
  dccsDeregMr mrArray
  outDeregMrCount mrCount mrInfos var rv

end MrInfo

/-- One receive posted and waited for (`:408-416`, `:431-439`); 0 if it completed. -/
def recvStep (p : Ptr) (length : Nat) (mr : Option Mr) (errPost errComp : String) :
    VProg (Int × Bool) := do
  let rv ← dccsRdmaRecv p length mr
  if rv ≠ 0 then do
    Call.logError errPost
    pure (rv, false)
  else do
  let rv ← whileZero dccsRdmaRecvComp
  if rv < 0 then do
    Call.logError errComp
    pure (rv, false)
  else pure (rv, true)

/-- One send posted and waited for (`:514-522`, `:529-537`). -/
def sendStep (p : Ptr) (length : Nat) (mr : Option Mr) (errPost errComp : String) :
    VProg (Int × Bool) := do
  let rv ← dccsRdmaSend p length mr
  if rv ≠ 0 then do
    Call.logError errPost
    pure (rv, false)
  else do
  let rv ← whileZero (dccsRdmaSendComp 1)
  if rv < 0 then do
    Call.logError errComp
    pure (rv, false)
  else pure (rv, true)

/-- What the two have in common. -/
def waitStep (post comp : VProg Int) (errPost errComp : String) : VProg (Int × Bool) := do
  let rv ← post
  if rv ≠ 0 then do
    Call.logError errPost
    pure (rv, false)
  else do
  let rv ← whileZero comp
  if rv < 0 then do
    Call.logError errComp
    pure (rv, false)
  else pure (rv, true)

theorem recvStep_eq (p : Ptr) (length : Nat) (mr : Option Mr) (e₁ e₂ : String) :
    recvStep p length mr e₁ e₂ = waitStep (dccsRdmaRecv p length mr) dccsRdmaRecvComp e₁ e₂ := rfl

theorem sendStep_eq (p : Ptr) (length : Nat) (mr : Option Mr) (e₁ e₂ : String) :
    sendStep p length mr e₁ e₂ = waitStep (dccsRdmaSend p length mr) (dccsRdmaSendComp 1) e₁ e₂ := rfl

/-- `get_remote_mr_info`: the result and the request array it leaves. -/
def getRemoteMrInfo (requests : List DccsRequest) (count : Nat) : VProg (Int × List DccsRequest) := do
  let arraySize := sizeT (count * mrInfoSize)
  match ← Call.malloc (List.replicate arraySize 0) with
  | none => .spin
  | some mrInfos => do
  let rcountVar ← Call.stackVar (o.bytes 8 0)
  match ← dccsRegMr .msgs rcountVar 8 with
  | none => (·, requests) <$> MrInfo.outFreeBuf mrInfos rcountVar (-1)
  | some mrCount => do
  match ← dccsRegMr .msgs mrInfos arraySize with
  | none => (·, requests) <$> MrInfo.outDeregMrCount mrCount mrInfos rcountVar (-1)
  | some mrArray => do
  let (rv, ok) ← recvStep rcountVar 8 mrCount "Failed to recv # of RDMA requests to remote side.\n"
    "Failed to recv comp # of RDMA requests to remote side.\n"
  if ¬ ok then (·, requests) <$> MrInfo.failure mrArray mrCount mrInfos rcountVar rv else do
  let rcount ← o.nat <$> Call.load rcountVar 8
  if rcount ≠ count then do
    Call.logError "Inconsistent request count: local is %zu, remote is %zu.\n"
    (·, requests) <$> MrInfo.failure mrArray mrCount mrInfos rcountVar rv
  else do
  let (rv, ok) ← recvStep mrInfos arraySize mrArray
    "Failed to recv RDMA read/write request info to remote side.\n"
    "Failed to recv comp RDMA read/write request info to remote side.\n"
  if ¬ ok then (·, requests) <$> MrInfo.failure mrArray mrCount mrInfos rcountVar rv else do
  if arraySize ≠ count * mrInfoSize then .spin else do
  let infos ← Call.load mrInfos arraySize
  let requests := storeMrInfos o infos requests count
  (·, requests) <$> MrInfo.failure mrArray mrCount mrInfos rcountVar rv

/-- `send_local_mr_info`. The loop over `count` records runs past the array if its size wrapped. -/
def sendLocalMrInfo (requests : List DccsRequest) (count : Nat) : VProg Int := do
  let arraySize := sizeT (count * mrInfoSize)
  if arraySize ≠ count * mrInfoSize then .spin else do
  match localMrInfos o requests count with
  | none => .spin
  | some bytes => do
  match ← Call.malloc bytes with
  | none => .spin
  | some mrInfos => do
  let countVar ← Call.stackVar (o.bytes 8 count)
  match ← dccsRegMr .msgs countVar 8 with
  | none => MrInfo.outFreeBuf mrInfos countVar (-1)
  | some mrCount => do
  match ← dccsRegMr .msgs mrInfos arraySize with
  | none => MrInfo.outDeregMrCount mrCount mrInfos countVar (-1)
  | some mrArray => do
  let (rv, ok) ← sendStep countVar 8 mrCount "Failed to send # of RDMA requests to remote side.\n"
    "Failed to send comp # of RDMA requests to remote side.\n"
  if ¬ ok then MrInfo.failure mrArray mrCount mrInfos countVar rv else do
  let (rv, _) ← sendStep mrInfos arraySize mrArray
    "Failed to send RDMA read/write request info to remote side.\n"
    "Failed to send comp RDMA read/write request info to remote side.\n"
  MrInfo.failure mrArray mrCount mrInfos countVar rv

end exchange

/-! ## Single messages -/

def sendMessage (buf : Ptr) (length : Nat) : VProg Int := do
  match ← dccsRegMr .msgs buf length with
  | none => pure (-1)
  | some mr => do
  let (rv, _) ← sendStep buf length mr "Failed to send message.\n" "Failed to send comp message.\n"
  dccsDeregMr mr
  pure rv

def recvMessage (buf : Ptr) (length : Nat) : VProg Int := do
  match ← dccsRegMr .msgs buf length with
  | none => pure (-1)
  | some mr => do
  let (rv, _) ← recvStep buf length mr "Failed to recv message.\n" "Failed to recv comp message.\n"
  dccsDeregMr mr
  pure rv

/-! ## Rounds -/

/-- `if (failed) { log_error("Failed to recv messages.\n"); failed_count++; }` -/
def countFailure (failed : Prop) [Decidable failed] (failedCount : Int) : VProg Int :=
  if failed then do
    Call.logError "Failed to recv messages.\n"
    pure (failedCount + 1)
  else pure failedCount

def recvOne (requests : List DccsRequest) (n : Nat) (failedCount : Int) : VProg Int := do
  let request := reqAt requests n
  let rv ← dccsRdmaRecv request.buf request.length request.mr
  let failedCount ← countFailure (rv ≠ 0) failedCount
  let rv ← whileZero dccsRdmaRecvComp
  countFailure (rv < 0) failedCount

def recvRequests (requests : List DccsRequest) (params : DccsParameters) : VProg Int := do
  let failedCount ← forN params.count (recvOne requests) 0
  pure (-failedCount)

structure SendState where
  requests : List DccsRequest
  signaled : Bool
  failedCount : Int := 0

/-- The work request of one request; an unrecognised verb posts nothing (and only logs a warning). -/
def requestWr (request : DccsRequest) (signaled : Bool) : Option SendWr := match request.verb with
  | .None => none
  | .Send =>
    some { verb := .Send, addr := request.buf.addr, len := request.length, mr := request.mr, signaled }
  | verb => some { verb, addr := request.buf.addr, len := request.length, mr := request.mr,
                   raddr := request.remoteAddr, rkey := request.remoteRkey, signaled }

/-- The `switch` over the request's verb; `rv` is 0 where nothing is posted. -/
def postRequest (request : DccsRequest) (signaled : Bool) : VProg Int :=
  match requestWr request signaled with
  | some wr => dccsRdmaPost wr
  | none => pure 0

/-- One turn of the loop of `send_and_wait_requests`. -/
def sendAndWaitOne (count n : Nat) (s : SendState) : VProg SendState := do
  let signaled := if n = count - 1 then true else s.signaled
  let rv ← postRequest (reqAt s.requests n) signaled
  let start ← Call.getCycles
  let requests := s.requests.set n { reqAt s.requests n with start }
  let failed := rv ≠ 0
  if signaled then do
    let rv ← dccsRdmaSendComp 1
    let end_ ← Call.getCycles
    let requests := requests.set n { reqAt requests n with end_ }
    let failed := failed ∨ rv < 0
    pure { requests, signaled, failedCount := if failed then s.failedCount + 1 else s.failedCount }
  else pure { requests, signaled, failedCount := if failed then s.failedCount + 1 else s.failedCount }

/-- The clock readings around the loop only feed a debug line. -/
def sendAndWaitRequests (requests : List DccsRequest) (params : DccsParameters) :
    VProg (Int × List DccsRequest) := do
  let signaled := match params.mode with
    | .latency => true
    | .throughput => false
  let _ ← Call.getCycles
  let s ← forN params.count (sendAndWaitOne params.count) { requests, signaled }
  let _ ← Call.getCycles
  pure (-s.failedCount, s.requests)

/-! ## Digest -/

def printSha1sum (requests : List DccsRequest) (count : Nat) : VProg Unit :=
  if count = 0 then Call.logError "Failed to calculate SHA1 sum: empty request array."
  else do
    let length := (reqAt requests 0).length
    let chunks ← forN count (fun n chunks => do
      let data ← Call.load (reqAt requests n).buf length
      pure (chunks ++ [data])) []
    Call.logDigest count length chunks

end RdmaOpera
