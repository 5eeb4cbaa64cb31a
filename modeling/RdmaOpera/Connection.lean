import RdmaOpera.Lib.System
import RdmaOpera.Regions

/-!
# Two hosts on a reliable connection

The environment of `rdma_exec` and `control_exec`. It does what is documented of `RC` queue pairs:

| here | there |
| --- | --- |
| `Net.exec`       | the oldest unfinished request of a send queue is carried out; a message waits for a receive (unlimited receiver-not-ready retry) |
| `Net.effect`     | protection checks, the length check of a message, and which bytes go where |
| `Net.flushSend`, `Net.flushRecv` | after an error the connection is broken, and what is still queued completes in error |
| `Net.answer`     | what a library call answers, given what the library is free to choose (`Net.Hint`) |
| `Net.content`    | what was in a block when it was handed out, then the program's own writes, then the transfers |
| `Net.transfers`  | every request carried out so far, in order |

An unsignaled request leaves a completion only if it fails. A program writes to its blocks before any
request is carried out; a later write, or one that leaves its block, has no answer. `Rc` collects what holds of the
connection whatever the two programs do.
-/

namespace RdmaOpera

open Lib Prog

/-- One end of the connection: requests and receives finished so far, and all completions generated. -/
structure Host where
  loc : Local := {}
  sdone : Nat := 0
  rdone : Nat := 0
  scq : List Wc := []
  rcq : List Wc := []

/-- A request of `src` carried out: `data` written to a block of `dst`. A message has consumed
`recv`. -/
structure Transfer where
  src : Role
  wr : SendWr
  recv : Option RecvWr
  dst : Role
  block : Nat
  off : Nat
  data : List UInt8

structure Net where
  host : Role → Host := fun _ => {}
  transfers : List Transfer := []
  broken : Bool := false

def completion (ok : Bool) : Wc := if ok then .good else .bad

@[simp] theorem completion_success (ok : Bool) : (completion ok).success ↔ ok = true := by
  cases ok <;> decide

/-- The head of the send queue completes. -/
def Host.finish (h : Host) (wr : SendWr) (ok : Bool) : Host :=
  { h with sdone := h.sdone + 1, scq := if wr.signaled ∨ ¬ ok then h.scq ++ [completion ok] else h.scq }

/-- The head of the receive queue completes. -/
def Host.take (h : Host) (ok : Bool) :
    Host := { h with rdone := h.rdone + 1, rcq := h.rcq ++ [completion ok] }

/-- The two ends, `h` at `s`. -/
def pair (s : Role) (h p : Host) (r : Role) : Host := if r = s then h else p

@[simp] theorem pair_self (s : Role) (h p : Host) : pair s h p s = h := by simp [pair]
@[simp] theorem pair_peer (s : Role) (h p : Host) : pair s h p s.peer = p := by simp [pair]

namespace Net

abbrev loc (net : Net) (r : Role) : Local := (net.host r).loc

/-- The requests of `r` carried out. -/
def done (net : Net) (r : Role) : List Transfer := net.transfers.filter fun t => t.src = r

/-- The messages of `r` delivered. -/
def msgs (net : Net) (r : Role) : List Transfer :=
  net.transfers.filter fun t => t.src = r ∧ t.wr.verb = .Send

/-- What block `b` of host `r` holds. -/
def content (net : Net) (r : Role) (b : Nat) : List UInt8 :=
  patched ((net.transfers.filter fun t => t.dst = r ∧ t.block = b).map fun t => (t.off, t.data))
    ((net.loc r).written b)

/-- A range read by the program. -/
def read (net : Net) (r : Role) (p : Ptr) (len : Nat) : Option (List UInt8) :=
  p.block.bind fun b => (net.loc r).blocks[b]?.bind fun block =>
    if block.base ≤ p.addr ∧ p.addr + len ≤ block.base + block.bytes.length then
      some (slice (p.addr - block.base) len (net.content r b)) else none

/-! ## The network -/

inductive Effect where
  | carry (t : Transfer)
  | reject
  | rejectBoth

/-- What becomes of the request at the head of the send queue of `s`; `none` while it has to wait. -/
def effect (net : Net) (s : Role) (wr : SendWr) : Option Effect :=
  match wr.verb, (net.loc s).liveSpot wr.mr wr.addr wr.len with
  | .None, _ => none
  | _, none => some .reject
  | .Send, some x =>
    (net.loc s.peer).rq[(net.host s.peer).rdone]?.map fun recv =>
      if recv.len < wr.len then .rejectBoth
      else match (net.loc s.peer).liveSpot recv.mr recv.addr recv.len with
        | none => .rejectBoth
        | some y =>
          .carry ⟨s, wr, some recv, s.peer, y.1, y.2, slice x.2 wr.len (net.content s x.1)⟩
  | .Write, some x =>
    match (net.loc s.peer).remote .write wr.rkey wr.raddr.toNat wr.len with
    | none => some .reject
    | some y => some (.carry ⟨s, wr, none, s.peer, y.1, y.2, slice x.2 wr.len (net.content s x.1)⟩)
  | .Read, some x =>
    match (net.loc s.peer).remote .read wr.rkey wr.raddr.toNat wr.len with
    | none => some .reject
    | some y => some (.carry ⟨s, wr, none, s, x.1, x.2, slice y.2 wr.len (net.content s.peer y.1)⟩)

/-- The state after the effect; `lost` breaks the connection before the sender learns of its
success. -/
def apply (net : Net) (s : Role) (wr : SendWr) (lost : Bool) : Effect → Net
  | .carry t =>
    { host := pair s ((net.host s).finish wr !lost)
        (if t.recv.isSome then (net.host s.peer).take true else net.host s.peer)
      transfers := net.transfers ++ [t]
      broken := lost }
  | .reject =>
    { net with host := pair s ((net.host s).finish wr false) (net.host s.peer), broken := true }
  | .rejectBoth =>
    { net with host := pair s ((net.host s).finish wr false) ((net.host s.peer).take false), broken := true }

def exec (net : Net) (s : Role) (lost : Bool) : Option Net :=
  if net.broken then none
  else (net.loc s).sq[(net.host s).sdone]?.bind fun wr =>
    (net.effect s wr).map (net.apply s wr lost)

def flushSend (net : Net) (r : Role) : Option Net :=
  if net.broken then (net.loc r).sq[(net.host r).sdone]?.map fun wr =>
    { net with host := pair r ((net.host r).finish wr false) (net.host r.peer) }
  else none

def flushRecv (net : Net) (r : Role) : Option Net :=
  if net.broken then (net.loc r).rq[(net.host r).rdone]?.map fun _ =>
    { net with host := pair r ((net.host r).take false) (net.host r.peer) }
  else none

/-! ## The library -/

/-- What the library is free to choose when it answers a call. -/
structure Hint where
  fail : Bool := false
  addr : Nat := 4096
  bytes : List UInt8 := []
  rkey : UInt32 := 0
  take : Nat := 1
  early : List UInt64 := []
  cycles : UInt64 := 0

/-- The next completions of a queue, `n` at most; a poll does not come back empty. -/
def nextWcs (n : Nat) (cq polled : List Wc) : Option Poll :=
  match (cq.drop polled.length).take n with
  | [] => none
  | wc :: rest => some (.got wc rest)

/-- A new block at the address chosen. -/
def place? (hint : Hint) (l : Local) (size : Nat) : Option Ptr :=
  if 0 < hint.addr ∧ hint.addr + size ≤ 2 ^ 64 then some ⟨some l.blocks.length, hint.addr⟩ else none

def answer (net : Net) (hint : Hint) (r : Role) : (op : VOp) → Option op.Ans
  | .cm _ => some (if hint.fail then (-1 : Int) else (0 : Int))
  | .stackVar bytes => place? hint (net.loc r) bytes.length
  | .malloc bytes =>
    if hint.fail then some none else (place? hint (net.loc r) bytes.length).map some
  | .mallocRandom size =>
    if hint.fail then some none
    else if hint.bytes.length = size then (place? hint (net.loc r) size).map fun p =>
      some (p, hint.bytes)
    else none
  | .regMr access _ _ =>
    if hint.fail then some none
    else if access ≠ .msgs ∧ hint.rkey ∈ (net.loc r).liveKeys then none
    else some (some (⟨(net.loc r).regions.length, hint.rkey⟩ : Mr))
  | .postSend _ => some (if hint.fail then (-1 : Int) else (0 : Int))
  | .postRecv _ => some (if hint.fail then (-1 : Int) else (0 : Int))
  | .pollSend num =>
    if hint.fail then some .failed else nextWcs (min hint.take num) (net.host r).scq (net.loc r).sWcs
  | .pollRecv => if hint.fail then some .failed else nextWcs 1 (net.host r).rcq (net.loc r).rWcs
  | .load p len => net.read r p len
  | .store p bytes =>
    if net.transfers.isEmpty ∧ (net.loc r).Covers p bytes.length then some () else none
  | .getCycles => some hint.cycles
  | .waitUntil _ => some (hint.early, hint.cycles)
  | .cmRelease _ | .leave _ | .free _ | .deregMr _ | .logError _ | .report _ _ | .logDigest _ _ _ =>
    some ()

/-- The call of `r` recorded. -/
def called (net : Net) (r : Role) (op : VOp) (a : op.Ans) : Net :=
  { net with host := Function.update net.host r { net.host r with loc := (net.loc r).upd op a } }

inductive Tick where
  | exec (s : Role) (lost : Bool)
  | flushSend (r : Role)
  | flushRecv (r : Role)
  | fault

def tick : Tick → Net → Option Net
  | .exec s lost, net => net.exec s lost
  | .flushSend r, net => net.flushSend r
  | .flushRecv r, net => net.flushRecv r
  | .fault, net => some { net with broken := true }

/-- What a tick can do. -/
inductive Ticked (net : Net) : Tick → Net → Prop where
  | exec {s : Role} {lost : Bool} {wr : SendWr} {e : Effect} (hb : net.broken = false)
      (hwr : (net.loc s).sq[(net.host s).sdone]? = some wr) (he : net.effect s wr = some e) :
      Ticked net (.exec s lost) (net.apply s wr lost e)
  | flushSend {r : Role} {wr : SendWr} (hb : net.broken = true)
    (hwr : (net.loc r).sq[(net.host r).sdone]? = some wr) :
      Ticked net (.flushSend r) { net with host := pair r ((net.host r).finish wr false) (net.host r.peer) }
  | flushRecv {r : Role} {recv : RecvWr} (hb : net.broken = true)
    (hrecv : (net.loc r).rq[(net.host r).rdone]? = some recv) :
      Ticked net (.flushRecv r) { net with host := pair r ((net.host r).take false) (net.host r.peer) }
  | fault : Ticked net .fault { net with broken := true }

theorem tick_cases {net net' : Net} {t : Tick} (ht : tick t net = some net') :
    net.Ticked t net' := by
  cases t with
  | exec s lost =>
    simp only [tick, exec] at ht
    split at ht
    · cases ht
    · rename_i hb
      obtain ⟨wr, hwr, ht⟩ := Option.bind_eq_some_iff.1 ht
      obtain ⟨e, he, rfl⟩ := Option.map_eq_some_iff.1 ht
      exact .exec (Bool.eq_false_iff.2 hb) hwr he
  | flushSend r =>
    simp only [tick, flushSend] at ht
    split at ht
    · rename_i hb
      obtain ⟨wr, hwr, rfl⟩ := Option.map_eq_some_iff.1 ht
      exact .flushSend hb hwr
    · cases ht
  | flushRecv r =>
    simp only [tick, flushRecv] at ht
    split at ht
    · rename_i hb
      obtain ⟨recv, hrecv, rfl⟩ := Option.map_eq_some_iff.1 ht
      exact .flushRecv hb hrecv
    · cases ht
  | fault =>
    cases ht
    exact .fault

end Net

/-- The connection as the environment of the two programs. -/
def rc : Env Verbs Role where
  St := Net
  Hint := Net.Hint
  Tick := Net.Tick
  act hint r op net := (net.answer hint r op).map fun a => (a, net.called r op a)
  tick := Net.tick

/-- Any step. -/
def AnyStep (_ : Label rc) (_ : Net) : Prop := True

/-- No call fails; the connection may break. -/
def NoCallFails : Label rc → Net → Prop
  | .call _ hint, _ => Net.Hint.fail hint = false
  | .tick _, _ => True

/-- Nothing fails: no call, and not the connection either. -/
def NothingFails : Label rc → Net → Prop
  | .call _ hint, _ => Net.Hint.fail hint = false
  | .tick (.exec _ lost), _ => lost = false
  | .tick _, _ => False

/-- Every completion generated so far is good. -/
def Net.AllGood (net : Net) : Prop :=
  ∀ r, (∀ wc ∈ (net.host r).scq, wc.success) ∧ ∀ wc ∈ (net.host r).rcq, wc.success

/-- No call fails, and no completion reports an error. -/
def EverythingSucceeds (l : Label rc) (net : Net) : Prop := NoCallFails l net ∧ net.AllGood

/-- A step that does not fail, as it stands in a schedule. -/
def plain : Label rc → Bool
  | .call _ hint => !Net.Hint.fail hint
  | .tick (.exec _ lost) => !lost
  | .tick _ => false

theorem nothingFails_of_plain {l : Label rc} (h : plain l) (net : Net) : NothingFails l net := by
  cases l with
  | call r hint => simpa [plain, NothingFails] using h
  | tick t =>
    cases t with
    | exec s lost => simpa [plain, NothingFails] using h
    | flushSend r => simp [plain] at h
    | flushRecv r => simp [plain] at h
    | fault => simp [plain] at h

/-- The next `n` calls of `r` succeed, in the plainest way. -/
def calls (r : Role) (n : Nat) : List (Label rc) := List.replicate n (.call r {})

/-- So do two new blocks, one on the heap and one on the stack. -/
def newBlocks (r : Role) (heap stack : Nat) :
    List (Label rc) := [.call r { addr := heap }, .call r { addr := stack }]

/-- The oldest request of `r` is carried out. -/
def carried (r : Role) : List (Label rc) := [.tick (.exec r false)]

/-- The two programs before their first call. -/
def start {α : Type} (prog : Role → VProg α) : Conf rc α := ⟨({} : Net), prog⟩

end RdmaOpera
