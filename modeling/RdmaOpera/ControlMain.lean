import RdmaOpera.RdmaMain
import RdmaOpera.Reports

/-!
# `control_exec`: `run` of `control_main.c`

The Release build: `assert` is compiled out, so `count` is whatever `parse_args` accepted.

| here | there |
| --- | --- |
| `magic`, `htons`     | `MAGIC`, `control_main.c:8`; the C library's `htons`, its own inverse |
| `writePacket`        | one turn of the loop at `:65-74` |
| `writePackets`       | `:63-74` |
| `exchangeMrInfo`     | `:76-106` |
| `controlRound`       | `:132-209`, the body of the round loop on the server |
| `clientRound`        | the same loop on a client, which only waits for its slots |
| `untilEnd`           | `:25-226`, up to and including the exchange of the end message |
| `report`             | `:228-230` |

The connection and the last steps are those of `rdma_main.c`, word for word. The array for the
completions (`:61`) is the list of `sendCompFrom`.
-/

namespace RdmaOpera.ControlExec

open Lib Prog
open RdmaExec (roleOf connect requestSize outDisconnect)

/-! ## The packets -/

def magic : UInt32 := 0xd1cefa11

/-- The bytes of a packet: `sizeof magic + sizeof ts_index`. -/
def packetLength : Nat := 6

section
variable (o : ByteOrder)

def bswap16 (x : UInt16) : UInt16 := UInt16.ofNat (ByteOrder.big.nat (leBytes 2 x.toNat))

def htons (x : UInt16) : UInt16 := match o with
  | .little => bswap16 x
  | .big => x

theorem bytes_htons (x : UInt16) : o.bytes 2 (htons o x).toNat = ByteOrder.big.bytes 2 x.toNat := by
  cases o with
  | big => rfl
  | little =>
    have hlen : (leBytes 2 x.toNat).reverse.length = 2 := by simp
    have hlt := leNat_lt (leBytes 2 x.toNat).reverse
    have hback := leBytes_leNat (leBytes 2 x.toNat).reverse
    rw [hlen] at hlt hback
    simp only [ByteOrder.bytes, htons, bswap16, ByteOrder.nat, UInt16.toNat_ofNat']
    rw [Nat.mod_eq_of_lt (show _ < 2 ^ 16 from hlt), hback]

/-- `&magic`, after `htonl`. -/
def magicBytes : List UInt8 := o.bytes 4 (htonl o magic).toNat

/-- `&ts_index`, after `htons`. -/
def indexBytes (params : DccsParameters) : List UInt8 := o.bytes 2 (htons o params.index).toNat

def writePacket (params : DccsParameters) (requestsOut : List DccsRequest) (n : Nat) (_ : Unit) :
    VProg Unit :=
  let request := reqAt requestsOut n
  match roleOf params with
  | .client => do
    Call.store request.buf (magicBytes o)
    Call.store (request.buf.add 4) (indexBytes o params)
  -- "Same for now"
  | .server => do
    Call.store request.buf (magicBytes o)
    Call.store (request.buf.add 4) (indexBytes o params)

def writePackets (params : DccsParameters) (requestsOut : List DccsRequest) : VProg Unit :=
  forN params.count (writePacket o params requestsOut) ()

end

/-! ## The exchange -/

/-- Both sides receive the peer's addresses into `requests_out` and send those of `requests_in`; the
server receives first, the client sends first. -/
def exchangeMrInfo (o : ByteOrder) (role : Role) (requestsIn requestsOut : List DccsRequest)
    (count : Nat) :
    VProg (Int × List DccsRequest) := match role with
  | .server => do
    let (rv, requestsOut) ← getRemoteMrInfo o requestsOut count
    if rv < 0 then do
      Call.logError "Failed to get remote MR info.\n"
      pure (rv, requestsOut)
    else do
    let rv ← sendLocalMrInfo o requestsIn count
    if rv < 0 then do
      Call.logError "Failed to send remote MR info.\n"
      pure (rv, requestsOut)
    else pure (rv, requestsOut)
  | .client => do
    let rv ← sendLocalMrInfo o requestsIn count
    if rv < 0 then do
      Call.logError "Failed to send remote MR info.\n"
      pure (rv, requestsOut)
    else do
    let (rv, requestsOut) ← getRemoteMrInfo o requestsOut count
    if rv < 0 then do
      Call.logError "Failed to get remote MR info.\n"
      pure (rv, requestsOut)
    else pure (rv, requestsOut)

/-! ## The round loop of the server -/

def slotNs : UInt64 := 100000

/-- `int` arithmetic is on 32 bits: `(int)n`. -/
def toInt32 (n : Nat) : Int := (Int32.ofNat n).toInt

theorem toInt32_of_lt {n : Nat} (h : n < 2 ^ 31) : toInt32 n = n := Int32.toInt_ofNat_of_lt h

theorem toInt32_lt (n : Nat) : toInt32 n < 2 ^ 31 := Int32.toInt_lt _

structure RoundState where
  target : UInt64
  start : List UInt64
  end_ : List UInt64
  /-- the loop was left by `break` -/
  broke : Bool := false

/-- The inner loop over `i`; `true` once a post failed and the loop was left. -/
def postOne (requestsOut : List DccsRequest) (n i : Nat) (s : RoundState × Bool) :
    VProg (RoundState × Bool) :=
  if s.2 then pure s else do
  let now ← Call.getCycles
  let state := { s.1 with start := s.1.start.set n now }
  let request := reqAt requestsOut i
  let rv ← dccsRdmaPost
    { verb := .Write, addr := request.buf.addr, len := request.length, mr := request.mr,
      raddr := request.remoteAddr, rkey := request.remoteRkey, signaled := true }
  if rv ≠ 0 then do
    Call.logError "Failed to send write.\n"
    pure (state, true)
  else pure (state, false)

def controlRound (requestsOut : List DccsRequest) (params : DccsParameters) (n : Nat)
    (s : RoundState) :
    VProg RoundState :=
  if s.broke then pure s
  -- `n % (params.repeat / 100)`
  else if params.repeat_ / 100 = 0 then .spin
  else do
  let target := s.target + slotNs
  let _ ← Call.waitUntil target
  let (s, _) ← forN params.count (postOne requestsOut n) ({ s with target }, false)
  let rv ← whileZero (dccsRdmaSendComp (toInt32 params.count))
  if rv < 0 then do
    Call.logError "Failed to send comp message.\n"
    pure { s with broke := true }
  else do
  let now ← Call.getCycles
  pure { s with end_ := s.end_.set n now }

/-- The round loop of a server (`control_main.c:127-209`). -/
def serverRounds (requestsOut : List DccsRequest) (params : DccsParameters) : VProg RoundState := do
  let target ← Call.getCycles
  forN params.repeat_ (controlRound requestsOut params)
    { target, start := List.replicate params.repeat_ 0, end_ := List.replicate params.repeat_ 0 }

/-! ## The round loop of a client -/

def clientRound (params : DccsParameters) (_ : Nat) (target : UInt64) : VProg UInt64 :=
  if params.repeat_ / 100 = 0 then .spin
  else do
  let target := target + slotNs
  let _ ← Call.waitUntil target
  pure target

def clientRounds (params : DccsParameters) : VProg UInt64 := do
  let target ← Call.getCycles
  forN params.repeat_ (clientRound params) target

/-! ## `run` -/

/-- How the first part of `run` is left; `arrays` are the arrays of timestamps, and `stamps` is what
a server has put in them. -/
inductive Exit where
  | end_ (rv : Int)
  | outDisconnect (rv : Int)
  | outDeallocateBuffer (requestsIn requestsOut : List DccsRequest) (arrays : List Ptr) (rv : Int)
  | ended (requestsIn requestsOut : List DccsRequest) (arrays : List Ptr)
    (stamps : Option RoundState) (rv : Int)

/-- `calloc(params.repeat, sizeof(uint64_t))`. -/
def callocStamps (params : DccsParameters) : VProg (Option Ptr) :=
  Call.malloc (List.replicate (8 * params.repeat_) 0)

/-- The server from the end of the exchange on. -/
def serverRun (params : DccsParameters) (requestsIn requestsOut : List DccsRequest) (rv : Int) :
    VProg Exit := do
  match ← callocStamps params with
  | none => do
    Call.logError "calloc"
    pure (.outDeallocateBuffer requestsIn requestsOut [] rv)
  | some start => do
  match ← callocStamps params with
  | none => do
    Call.logError "calloc"
    pure (.outDeallocateBuffer requestsIn requestsOut [start] rv)
  | some end_ => do
  let stamps ← serverRounds requestsOut params
  let buf ← Call.stackVar syncEndMessage
  let rv ← sendMessage buf syncEndMessageLength
  if rv < 0 then do
    Call.logError "Failed to send terminating message.\n"
    Call.leave buf
    pure (.outDeallocateBuffer requestsIn requestsOut [start, end_] rv)
  else do
    Call.leave buf
    pure (.ended requestsIn requestsOut [start, end_] (some stamps) rv)

def clientRun (params : DccsParameters) (requestsIn requestsOut : List DccsRequest) : VProg Exit := do
  let _ ← clientRounds params
  let buf ← Call.stackVar (List.replicate syncEndMessageLength 0)
  let rv ← recvMessage buf syncEndMessageLength
  if rv < 0 then do
    Call.logError "Failed to recv terminating message.\n"
    Call.leave buf
    pure (.outDeallocateBuffer requestsIn requestsOut [] rv)
  else do
    Call.leave buf
    pure (.ended requestsIn requestsOut [] none rv)

def untilEnd (o : ByteOrder) (params : DccsParameters) : VProg Exit := do
  let rv ← connect params
  if rv ≠ 0 then pure (.end_ rv) else do
  -- `calloc` gives a null pointer
  if sizeT (params.count * requestSize) ≠ params.count * requestSize then .spin else do
  let (rv, requestsIn) ← allocateBuffer (List.replicate params.count {}) params
  if rv ≠ 0 then do
    Call.logError "Failed to allocate buffers.\n"
    pure (.outDisconnect rv)
  else do
  let (rv, requestsOut) ← allocateBuffer (List.replicate params.count {}) params
  if rv ≠ 0 then do
    Call.logError "Failed to allocate buffers.\n"
    pure (.outDisconnect rv)
  else do
  writePackets o params requestsOut
  let (rv, requestsOut) ← exchangeMrInfo o (roleOf params) requestsIn requestsOut params.count
  if rv < 0 then pure (.outDeallocateBuffer requestsIn requestsOut [] rv) else
  match roleOf params with
  | .server => serverRun params requestsIn requestsOut rv
  | .client => clientRun params requestsIn requestsOut

/-- The report of a server that has got to it. -/
def report (clockRate : UInt64) (params : DccsParameters) (stamps : RoundState) :
    Option LatencyReport :=
  printLatencyReportRaw clockRate stamps.start stamps.end_ params.repeat_ (stamps.start.getD 0 0) params.verbose

def outDeallocateBuffer (requestsIn requestsOut : List DccsRequest) (arrays : List Ptr)
    (params : DccsParameters) (rv : Int) :
    VProg Int := do
  arrays.forM Call.free
  deallocateBuffer requestsIn params
  deallocateBuffer requestsOut params
  outDisconnect params rv

def finish (params : DccsParameters) : Exit → VProg Int
  | .end_ rv => pure rv
  | .outDisconnect rv => outDisconnect params rv
  | .outDeallocateBuffer requestsIn requestsOut arrays rv =>
    ControlExec.outDeallocateBuffer requestsIn requestsOut arrays params rv
  | .ended requestsIn requestsOut arrays _ rv => do
    match roleOf params with
    | .server => do
      printSha1sum requestsOut params.count
      printSha1sum requestsIn params.count
    | .client => do
      printSha1sum requestsIn params.count
      printSha1sum requestsOut params.count
    ControlExec.outDeallocateBuffer requestsIn requestsOut arrays params rv

/-- `run`; `main` returns its value as the exit status. -/
def run (o : ByteOrder) (params : DccsParameters) : VProg Int := untilEnd o params >>= finish params

end RdmaOpera.ControlExec
