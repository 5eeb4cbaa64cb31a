import RdmaOpera.Rdma

/-!
# `rdma_exec`: `run` of `rdma_main.c`

`untilEnd` is `run` up to and including the exchange of the end message (`rdma_main.c:15-143`);
how it was left is an `Exit`, named after the labels. `run` goes on from there.
-/

namespace RdmaOpera.RdmaExec

open Lib Prog

/-- `sizeof(struct dccs_request)` on LP64. -/
def requestSize : Nat := 64

def roleOf (params : DccsParameters) : Role := if params.server = none then .server else .client

/-- The part of `run` that sets the connection up. -/
def connect (params : DccsParameters) : VProg Int := match roleOf params with
  | .client => dccsConnect params.tos
  | .server => dccsListen

/-- `rdma_main.c:50-67`: `Read` and `Write` need the server's addresses. -/
def exchangeMrInfo (o : ByteOrder) (requests : List DccsRequest) (params : DccsParameters) :
    VProg (Int × List DccsRequest) :=
  if params.verb = .Read ∨ params.verb = .Write then do
    match roleOf params with
    | .client => do
      let (rv, requests) ← getRemoteMrInfo o requests params.count
      if rv < 0 then do
        Call.logError "Failed to get remote MR info.\n"
        pure (rv, requests)
      else pure (rv, requests)
    | .server => do
      let rv ← sendLocalMrInfo o requests params.count
      if rv < 0 then do
        Call.logError "Failed to get remote MR info.\n"
        pure (rv, requests)
      else pure (rv, requests)
  else pure (0, requests)

/-- One round of a client: requests sent and waited for, then the report. -/
def clientRound (params : DccsParameters) (_ : Nat) (requests : List DccsRequest) :
    VProg (List DccsRequest) := do
  let (rv, requests) ← sendAndWaitRequests requests params
  if rv < 0 then do
    Call.logError "Failed to send and send comp all requests.\n"
    Call.report requests params
    pure requests
  else do
    Call.report requests params
    pure requests

/-- One round of a server. -/
def serverRound (params : DccsParameters) (_ : Nat) (requests : List DccsRequest) :
    VProg (List DccsRequest) :=
  match params.verb with
  | .Read | .Write | .None => pure requests
  | .Send => do
    let rv ← recvRequests requests params
    if rv < 0 then do
      Call.logError "Failed to receive all requests.\n"
      pure requests
    else pure requests

/-- The loop over `params.repeat` rounds. A round's `rv` is overwritten before it is ever read
again. -/
def rounds (requests : List DccsRequest) (params : DccsParameters) : VProg (List DccsRequest) :=
  match roleOf params with
  | .client => forN params.repeat_ (clientRound params) requests
  | .server => forN params.repeat_ (serverRound params) requests

/-- `rdma_main.c:128-143`. -/
def endMessage (params : DccsParameters) : VProg Int := match roleOf params with
  | .client => do
    let buf ← Call.stackVar syncEndMessage
    let rv ← sendMessage buf syncEndMessageLength
    if rv < 0 then do
      Call.logError "Failed to send terminating message.\n"
      Call.leave buf
      pure rv
    else do
      Call.leave buf
      pure rv
  | .server => do
    let buf ← Call.stackVar (List.replicate syncEndMessageLength 0)
    let rv ← recvMessage buf syncEndMessageLength
    if rv < 0 then do
      Call.logError "Failed to recv terminating message.\n"
      Call.leave buf
      pure rv
    else do
      Call.leave buf
      pure rv

/-- How the first part of `run` is left. -/
inductive Exit where
  | end_ (rv : Int)
  | outDisconnect (rv : Int)
  | outDeallocateBuffer (requests : List DccsRequest) (rv : Int)
  | ended (requests : List DccsRequest) (rv : Int)

def untilEnd (o : ByteOrder) (params : DccsParameters) : VProg Exit := do
  let rv ← connect params
  if rv ≠ 0 then pure (.end_ rv) else do
  if sizeT (params.count * requestSize) ≠ params.count * requestSize then .spin else do
  let (rv, requests) ← allocateBuffer (List.replicate params.count {}) params
  if rv ≠ 0 then do
    Call.logError "Failed to allocate buffers.\n"
    pure (.outDisconnect rv)
  else do
  let (rv, requests) ← exchangeMrInfo o requests params
  if rv < 0 then pure (.outDeallocateBuffer requests rv) else do
  let requests ← rounds requests params
  let rv ← endMessage params
  if rv < 0 then pure (.outDeallocateBuffer requests rv) else pure (.ended requests rv)

def outDisconnect (params : DccsParameters) (rv : Int) : VProg Int := do
  match roleOf params with
  | .client => dccsClientDisconnect
  | .server => dccsServerDisconnect
  pure rv

def outDeallocateBuffer (requests : List DccsRequest) (params : DccsParameters) (rv : Int) :
    VProg Int := do
  deallocateBuffer requests params
  outDisconnect params rv

def finish (params : DccsParameters) : Exit → VProg Int
  | .end_ rv => pure rv
  | .outDisconnect rv => RdmaExec.outDisconnect params rv
  | .outDeallocateBuffer requests rv => RdmaExec.outDeallocateBuffer requests params rv
  | .ended requests rv => do
    printSha1sum requests params.count
    RdmaExec.outDeallocateBuffer requests params rv

/-- `run`; `main` returns its value as the exit status. -/
def run (o : ByteOrder) (params : DccsParameters) : VProg Int := untilEnd o params >>= finish params

end RdmaOpera.RdmaExec
