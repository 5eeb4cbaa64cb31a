import RdmaOpera.Lib.Prog
import RdmaOpera.Parameters

/-!
# The library calls the RDMA programs make

`rdma_cma.h`, `rdma_verbs.h` and the C library are not part of the repository. Their calls are the
signature `Verbs`; what they do is said by the environments that answer them.

| here | there |
| --- | --- |
| `CmCall`, `CmRelease`     | `rdma_getaddrinfo` … `rdma_accept`, and the calls that undo them |
| `stackVar`, `leave`       | a local variable whose address is passed on, from its initialisation to the end of its scope |
| `malloc`, `free`          | `malloc`, with the contents the caller fills in before the block is registered |
| `mallocRandom`            | `malloc_random` (`dccs_utils.h:471`): the answer carries the contents it came with |
| `regMr`, `deregMr`        | `rdma_reg_msgs` / `_read` / `_write`, `rdma_dereg_mr` |
| `postSend`, `postRecv`    | `rdma_post_send` / `_read` / `_write`, `rdma_post_recv` |
| `pollSend`, `pollRecv`    | the loop `do { rv = ibv_poll_cq(cq, num, ..); } while (rv == 0);` |
| `load`, `store`           | the program reads a range of one of its blocks, or writes to it (`memcpy`) |
| `waitUntil`               | `wait_until` (`control_main.c:21`): the readings below the target, then the first that is not |
| `report`, `logDigest`     | the latency / throughput report of a round, and `print_sha1sum`'s log line |

`Local` is what a process has asked of the library so far; it depends on its own calls only.
-/

namespace RdmaOpera

open Lib Prog

inductive Ep where
  | id | listenId
deriving DecidableEq, Repr

inductive CmCall where
  | getaddrinfo | createEp (e : Ep) | setOption (tos : UInt8) | connect | listen | getRequest | accept
deriving DecidableEq, Repr

inductive CmRelease where
  | freeaddrinfo | disconnect | destroyEp (e : Ep)
deriving DecidableEq, Repr

/-- `rdma_reg_msgs` gives no remote access, `rdma_reg_read` / `rdma_reg_write` give that one. -/
inductive Access where
  | msgs | read | write
deriving DecidableEq, Repr

/-- A work request for the send queue; `raddr` and `rkey` are used by `Read` and `Write`. -/
structure SendWr where
  verb : Verb
  addr : Nat
  len : Nat
  mr : Option Mr
  raddr : UInt64 := 0
  rkey : UInt32 := 0
  signaled : Bool
deriving DecidableEq, Repr

structure RecvWr where
  addr : Nat
  len : Nat
  mr : Option Mr
deriving DecidableEq, Repr

/-- A work completion; `IBV_WC_SUCCESS` is status 0. -/
structure Wc where
  wrId : Nat
  status : Nat
deriving DecidableEq, Repr

def Wc.success (wc : Wc) : Prop := wc.status = 0

instance (wc : Wc) : Decidable wc.success := inferInstanceAs (Decidable (wc.status = 0))

def Wc.good : Wc := ⟨0, 0⟩
/-- Any of the error statuses. -/
def Wc.bad : Wc := ⟨0, 5⟩

@[simp] theorem Wc.good_success : Wc.good.success := rfl
@[simp] theorem Wc.bad_not_success : ¬ Wc.bad.success := by decide

/-- Result of a poll that did not come back empty: a negative return, or the entries stored. -/
inductive Poll where
  | failed
  | got (wc : Wc) (rest : List Wc)
deriving DecidableEq, Repr

/-- The completions a poll took off its queue. -/
def Poll.wcs : Poll → List Wc
  | .failed => []
  | .got wc rest => wc :: rest

inductive VOp where
  | cm (c : CmCall)
  | cmRelease (r : CmRelease)
  | stackVar (bytes : List UInt8)
  | leave (p : Ptr)
  | malloc (bytes : List UInt8)
  | mallocRandom (size : Nat)
  | free (p : Ptr)
  | regMr (access : Access) (p : Ptr) (len : Nat)
  | deregMr (mr : Mr)
  | postSend (wr : SendWr)
  | postRecv (wr : RecvWr)
  | pollSend (num : Nat)
  | pollRecv
  | load (p : Ptr) (len : Nat)
  | store (p : Ptr) (bytes : List UInt8)
  | getCycles
  | waitUntil (target : UInt64)
  | logError (format : String)
  | report (requests : List DccsRequest) (params : DccsParameters)
  | logDigest (count length : Nat) (chunks : List (List UInt8))

abbrev VOp.Ans : VOp → Type
  | .cm _ => Int
  | .stackVar _ => Ptr
  | .malloc _ => Option Ptr
  | .mallocRandom _ => Option (Ptr × List UInt8)
  | .regMr .. => Option Mr
  | .postSend _ | .postRecv _ => Int
  | .pollSend _ | .pollRecv => Poll
  | .load .. => List UInt8
  | .getCycles => UInt64
  | .waitUntil _ => List UInt64 × UInt64
  | .cmRelease _ | .leave _ | .free _ | .deregMr _ | .store .. | .logError _ | .report ..
  | .logDigest .. => Unit

abbrev Verbs : Sig := ⟨VOp, VOp.Ans⟩

/-- The programs of `rdma_exec` and `control_exec`. -/
abbrev VProg := Prog Verbs

namespace Call

def cm (c : CmCall) : VProg Int := Prog.op (S := Verbs) (.cm c)
def cmRelease (r : CmRelease) : VProg Unit := Prog.op (S := Verbs) (.cmRelease r)
def stackVar (bytes : List UInt8) : VProg Ptr := Prog.op (S := Verbs) (.stackVar bytes)
def leave (p : Ptr) : VProg Unit := Prog.op (S := Verbs) (.leave p)
def malloc (bytes : List UInt8) : VProg (Option Ptr) := Prog.op (S := Verbs) (.malloc bytes)
def mallocRandom (size : Nat) : VProg (Option (Ptr × List UInt8)) :=
  Prog.op (S := Verbs) (.mallocRandom size)
def free (p : Ptr) : VProg Unit := Prog.op (S := Verbs) (.free p)
def regMr (access : Access) (p : Ptr) (len : Nat) : VProg (Option Mr) :=
  Prog.op (S := Verbs) (.regMr access p len)
def deregMr (mr : Mr) : VProg Unit := Prog.op (S := Verbs) (.deregMr mr)
def postSend (wr : SendWr) : VProg Int := Prog.op (S := Verbs) (.postSend wr)
def postRecv (wr : RecvWr) : VProg Int := Prog.op (S := Verbs) (.postRecv wr)
def pollSend (num : Nat) : VProg Poll := Prog.op (S := Verbs) (.pollSend num)
def pollRecv : VProg Poll := Prog.op (S := Verbs) .pollRecv
def load (p : Ptr) (len : Nat) : VProg (List UInt8) := Prog.op (S := Verbs) (.load p len)
def store (p : Ptr) (bytes : List UInt8) : VProg Unit := Prog.op (S := Verbs) (.store p bytes)
def getCycles : VProg UInt64 := Prog.op (S := Verbs) .getCycles
def waitUntil (target : UInt64) : VProg (List UInt64 × UInt64) :=
  Prog.op (S := Verbs) (.waitUntil target)
def logError (format : String) : VProg Unit := Prog.op (S := Verbs) (.logError format)
def report (requests : List DccsRequest) (params : DccsParameters) : VProg Unit :=
  Prog.op (S := Verbs) (.report requests params)
def logDigest (count length : Nat) (chunks : List (List UInt8)) : VProg Unit :=
  Prog.op (S := Verbs) (.logDigest count length chunks)

end Call

/-! What it takes for a single call to be safe. -/

section safe
variable {σ : Type} {m : Monitor Verbs σ} {ok : σ → VOp → Prop} {s : σ}

@[simp] theorem safe_cm (c : CmCall) {Q : Int → σ → Prop} :
    Safe m ok (Call.cm c) s Q ↔ ok s (.cm c) ∧ ∀ a : Int, m.adm s (.cm c) a →
      Q a (m.upd s (.cm c) a) := Iff.rfl
@[simp] theorem safe_cmRelease (r : CmRelease) {Q : Unit → σ → Prop} :
    Safe m ok (Call.cmRelease r) s Q ↔ ok s (.cmRelease r) ∧ ∀ a : Unit, m.adm s (.cmRelease r) a →
      Q a (m.upd s (.cmRelease r) a) := Iff.rfl
@[simp] theorem safe_stackVar (bytes : List UInt8) {Q : Ptr → σ → Prop} :
    Safe m ok (Call.stackVar bytes) s Q ↔ ok s (.stackVar bytes) ∧ ∀ a : Ptr,
      m.adm s (.stackVar bytes) a → Q a (m.upd s (.stackVar bytes) a) := Iff.rfl
@[simp] theorem safe_leave (p : Ptr) {Q : Unit → σ → Prop} :
    Safe m ok (Call.leave p) s Q ↔ ok s (.leave p) ∧ ∀ a : Unit, m.adm s (.leave p) a →
      Q a (m.upd s (.leave p) a) := Iff.rfl
@[simp] theorem safe_malloc (bytes : List UInt8) {Q : Option Ptr → σ → Prop} :
    Safe m ok (Call.malloc bytes) s Q ↔ ok s (.malloc bytes) ∧ ∀ a : Option Ptr,
      m.adm s (.malloc bytes) a → Q a (m.upd s (.malloc bytes) a) := Iff.rfl
@[simp] theorem safe_mallocRandom (size : Nat) {Q : Option (Ptr × List UInt8) → σ → Prop} :
    Safe m ok (Call.mallocRandom size) s Q ↔ ok s (.mallocRandom size) ∧
      ∀ a : Option (Ptr × List UInt8), m.adm s (.mallocRandom size) a →
      Q a (m.upd s (.mallocRandom size) a) := Iff.rfl
@[simp] theorem safe_free (p : Ptr) {Q : Unit → σ → Prop} :
    Safe m ok (Call.free p) s Q ↔ ok s (.free p) ∧ ∀ a : Unit, m.adm s (.free p) a →
      Q a (m.upd s (.free p) a) := Iff.rfl
@[simp] theorem safe_regMr (access : Access) (p : Ptr) (len : Nat) {Q : Option Mr → σ → Prop} :
    Safe m ok (Call.regMr access p len) s Q ↔ ok s (.regMr access p len) ∧ ∀ a : Option Mr,
      m.adm s (.regMr access p len) a → Q a (m.upd s (.regMr access p len) a) := Iff.rfl
@[simp] theorem safe_deregMr (mr : Mr) {Q : Unit → σ → Prop} :
    Safe m ok (Call.deregMr mr) s Q ↔ ok s (.deregMr mr) ∧ ∀ a : Unit, m.adm s (.deregMr mr) a →
      Q a (m.upd s (.deregMr mr) a) := Iff.rfl
@[simp] theorem safe_postSend (wr : SendWr) {Q : Int → σ → Prop} :
    Safe m ok (Call.postSend wr) s Q ↔ ok s (.postSend wr) ∧ ∀ a : Int, m.adm s (.postSend wr) a →
      Q a (m.upd s (.postSend wr) a) := Iff.rfl
@[simp] theorem safe_postRecv (wr : RecvWr) {Q : Int → σ → Prop} :
    Safe m ok (Call.postRecv wr) s Q ↔ ok s (.postRecv wr) ∧ ∀ a : Int, m.adm s (.postRecv wr) a →
      Q a (m.upd s (.postRecv wr) a) := Iff.rfl
@[simp] theorem safe_pollSend (num : Nat) {Q : Poll → σ → Prop} :
    Safe m ok (Call.pollSend num) s Q ↔ ok s (.pollSend num) ∧ ∀ a : Poll,
      m.adm s (.pollSend num) a → Q a (m.upd s (.pollSend num) a) := Iff.rfl
@[simp] theorem safe_pollRecv {Q : Poll → σ → Prop} :
    Safe m ok Call.pollRecv s Q ↔ ok s .pollRecv ∧ ∀ a : Poll, m.adm s .pollRecv a →
      Q a (m.upd s .pollRecv a) := Iff.rfl
@[simp] theorem safe_load (p : Ptr) (len : Nat) {Q : List UInt8 → σ → Prop} :
    Safe m ok (Call.load p len) s Q ↔ ok s (.load p len) ∧ ∀ a : List UInt8,
      m.adm s (.load p len) a → Q a (m.upd s (.load p len) a) := Iff.rfl
@[simp] theorem safe_store (p : Ptr) (bytes : List UInt8) {Q : Unit → σ → Prop} :
    Safe m ok (Call.store p bytes) s Q ↔ ok s (.store p bytes) ∧ ∀ a : Unit,
      m.adm s (.store p bytes) a → Q a (m.upd s (.store p bytes) a) := Iff.rfl
@[simp] theorem safe_getCycles {Q : UInt64 → σ → Prop} :
    Safe m ok Call.getCycles s Q ↔ ok s .getCycles ∧ ∀ a : UInt64, m.adm s .getCycles a →
      Q a (m.upd s .getCycles a) := Iff.rfl
@[simp] theorem safe_waitUntil (target : UInt64) {Q : List UInt64 × UInt64 → σ → Prop} :
    Safe m ok (Call.waitUntil target) s Q ↔ ok s (.waitUntil target) ∧ ∀ a : List UInt64 × UInt64,
      m.adm s (.waitUntil target) a → Q a (m.upd s (.waitUntil target) a) := Iff.rfl
@[simp] theorem safe_logError (format : String) {Q : Unit → σ → Prop} :
    Safe m ok (Call.logError format) s Q ↔ ok s (.logError format) ∧ ∀ a : Unit,
      m.adm s (.logError format) a → Q a (m.upd s (.logError format) a) := Iff.rfl
@[simp] theorem safe_report (requests : List DccsRequest) (params : DccsParameters)
    {Q : Unit → σ → Prop} :
    Safe m ok (Call.report requests params) s Q ↔ ok s (.report requests params) ∧
      ∀ a : Unit, m.adm s (.report requests params) a → Q a (m.upd s (.report requests params) a) :=
      Iff.rfl
@[simp] theorem safe_logDigest (count length : Nat) (chunks : List (List UInt8))
    {Q : Unit → σ → Prop} :
    Safe m ok (Call.logDigest count length chunks) s Q ↔ ok s (.logDigest count length chunks) ∧
      ∀ a : Unit, m.adm s (.logDigest count length chunks) a →
      Q a (m.upd s (.logDigest count length chunks) a) := Iff.rfl

end safe

/-! ## What a process has asked for -/

/-- A block of memory as it was handed out. -/
structure Block where
  base : Nat
  bytes : List UInt8
deriving DecidableEq, Repr

structure Region where
  access : Access
  ptr : Ptr
  len : Nat
  rkey : UInt32
deriving DecidableEq, Repr

/-- The history of one process's calls: blocks by their identity, regions by their handle, the
accepted work requests in posting order, the completions polled, and the bytes read and written in
order. -/
structure Local where
  blocks : List Block := []
  regions : List Region := []
  dereged : List Nat := []
  sq : List SendWr := []
  rq : List RecvWr := []
  sWcs : List Wc := []
  rWcs : List Wc := []
  loads : List (List UInt8) := []
  stores : List (Ptr × List UInt8) := []
  digests : List (List (List UInt8)) := []

def Local.upd (l : Local) : (o : VOp) → o.Ans → Local
  | .stackVar bytes, (p : Ptr) => { l with blocks := l.blocks ++ [⟨p.addr, bytes⟩] }
  | .malloc bytes, (some p : Option Ptr) => { l with blocks := l.blocks ++ [⟨p.addr, bytes⟩] }
  | .mallocRandom _, (some (p, bytes) : Option (Ptr × List UInt8)) =>
    { l with blocks := l.blocks ++ [⟨p.addr, bytes⟩] }
  | .regMr access p len, (some mr : Option Mr) =>
    { l with regions := l.regions ++ [⟨access, p, len, mr.rkey⟩] }
  | .deregMr mr, _ => { l with dereged := l.dereged ++ [mr.handle] }
  | .postSend wr, (rv : Int) => if rv = 0 then { l with sq := l.sq ++ [wr] } else l
  | .postRecv wr, (rv : Int) => if rv = 0 then { l with rq := l.rq ++ [wr] } else l
  | .pollSend _, (poll : Poll) => { l with sWcs := l.sWcs ++ poll.wcs }
  | .pollRecv, (poll : Poll) => { l with rWcs := l.rWcs ++ poll.wcs }
  | .load _ _, (bytes : List UInt8) => { l with loads := l.loads ++ [bytes] }
  | .store p bytes, _ => { l with stores := l.stores ++ [(p, bytes)] }
  | .logDigest _ _ chunks, _ => { l with digests := l.digests ++ [chunks] }
  | _, _ => l

/-- The accepted requests of the send queue that carry a message. -/
def sends (sq : List SendWr) : List SendWr := sq.filter fun wr => wr.verb = .Send

@[simp] theorem sends_append (a b : List SendWr) : sends (a ++ b) = sends a ++ sends b := by
  simp [sends]

end RdmaOpera
