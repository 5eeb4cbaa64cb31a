import Mathlib.Algebra.Group.Nat.Defs
import Mathlib.Tactic.SplitIfs
import Mathlib.Data.List.Basic

/-!
# Parameters, requests and configuration

| here | there |
| --- | --- |
| `Verb`, `Mode`, `Direction`, `Role` | `dccs_parameters.h:13-16` |
| `DccsParameters`, `DccsRequest`     | `dccs_parameters.h:23-56` (LP64; a `size_t` is a `Nat`, its arithmetic wraps by `sizeT`) |
| `maxWr`, `syncEndMessage`           | `dccs_config.h:21,37` |
| `finishArgs`                        | the tail of `parse_args` (`dccs_utils.h:440-452`): warm-up, then validation |
| `Accepted`                          | what `parse_args` lets through |
-/

namespace RdmaOpera

inductive Verb where
  | None | Send | Read | Write
deriving DecidableEq, Repr

inductive Mode where
  | latency | throughput
deriving DecidableEq, Repr

inductive Direction where
  | dirOut | dirIn | dirBoth
deriving DecidableEq, Repr

inductive Role where
  | client | server
deriving DecidableEq, Repr

def Role.peer : Role → Role
  | .client => .server
  | .server => .client

@[simp] theorem Role.peer_peer (r : Role) : r.peer.peer = r := by cases r <;> rfl
@[simp] theorem Role.peer_ne (r : Role) : r.peer ≠ r := by cases r <;> simp [peer]
@[simp] theorem Role.ne_peer (r : Role) : r ≠ r.peer := by cases r <;> simp [peer]

theorem Role.eq_or_eq_peer (p q : Role) : q = p ∨ q = p.peer := by
  cases p <;> cases q <;> simp [peer]

/-- Unsigned 64-bit arithmetic. -/
def sizeT (n : Nat) : Nat := n % 2 ^ 64

theorem sizeT_lt (n : Nat) : sizeT n < 2 ^ 64 := Nat.mod_lt _ (by decide)

theorem sizeT_of_lt {n : Nat} (h : n < 2 ^ 64) : sizeT n = n := Nat.mod_eq_of_lt h

/-- A pointer: the block it was derived from (none for arithmetic on a null pointer), and the
address it holds. -/
structure Ptr where
  block : Option Nat
  addr : Nat
deriving DecidableEq, Repr

def Ptr.null : Ptr := ⟨none, 0⟩

def Ptr.add (p : Ptr) (n : Nat) : Ptr := { p with addr := p.addr + n }

@[simp] theorem Ptr.add_block (p : Ptr) (n : Nat) : (p.add n).block = p.block := rfl
@[simp] theorem Ptr.add_addr (p : Ptr) (n : Nat) : (p.add n).addr = p.addr + n := rfl

/-- What the program sees of a registered memory region (`struct ibv_mr`). -/
structure Mr where
  handle : Nat
  rkey : UInt32
deriving DecidableEq, Repr

structure DccsParameters where
  verb : Verb
  count : Nat
  length : Nat
  repeat_ : Nat
  server : Option String
  port : String
  mode : Mode
  warmupCount : Nat
  mrCount : Nat
  direction : Direction
  index : UInt16
  tos : UInt8
  verbose : Bool
deriving DecidableEq, Repr

structure DccsRequest where
  verb : Verb := .None
  mr : Option Mr := none
  buf : Ptr := .null
  length : Nat := 0
  remoteAddr : UInt64 := 0
  remoteRkey : UInt32 := 0
  start : UInt64 := 0
  end_ : UInt64 := 0
deriving DecidableEq, Repr, Inhabited

/-- `requests[n]`. -/
def reqAt (requests : List DccsRequest) (n : Nat) : DccsRequest := requests.getD n default

theorem reqAt_set {requests : List DccsRequest} {i n : Nat} {r : DccsRequest}
    (h : n < requests.length) :
    reqAt (requests.set i r) n = if i = n then r else reqAt requests n := by
  simp only [reqAt, List.getD_eq_getElem?_getD, List.getElem?_set]
  split
  · rename_i e; subst e; simp [h]
  · rfl

theorem reqAt_mapIdx {requests : List DccsRequest} {f : Nat → DccsRequest → DccsRequest} {n : Nat}
    (h : n < requests.length) : reqAt (requests.mapIdx f) n = f n (reqAt requests n) := by
  simp [reqAt, h]

/-! ## Configuration -/

def maxWr : Nat := 1000

/-- `"End"` with its terminating zero (`SYNC_END_MESSAGE_LENGTH` is 4). -/
def syncEndMessage : List UInt8 := [69, 110, 100, 0]

def syncEndMessageLength : Nat := 4

theorem length_syncEndMessage : syncEndMessage.length = syncEndMessageLength := rfl

/-! ## Argument validation -/

/-- In throughput mode the warm-up requests are sent on top of the requested ones. -/
def addWarmup (params : DccsParameters) : DccsParameters :=
  if params.mode = .throughput then { params with count := sizeT (params.count + params.warmupCount) }
  else params

/-- The five `dccs_validate` checks; the program exits with the text of the first that fails. -/
def validateArgs (params : DccsParameters) : Except String DccsParameters :=
  if ¬ params.count > 0 then .error "count must be a positive integer.\n"
  else if ¬ params.length > 0 then .error "length must be a positive integer.\n"
  else if ¬ params.mrCount > 0 then .error "mr count must be a positive integer.\n"
  else if ¬ params.count % params.mrCount = 0 then .error "count must be a multiple of MR count.\n"
  else if ¬ params.repeat_ > 0 then .error "repeat must be a positive integer.\n"
  else .ok params

/-- `parse_args` after the option loop and the positional argument. -/
def finishArgs (params : DccsParameters) : Except String DccsParameters :=
  validateArgs (addWarmup params)

/-- The fields as the option loop leaves them: `-v` only ever stores `Read` or `Write` over the
default `Send`, and every `size_t` fits 64 bits. -/
structure Scanned (params : DccsParameters) : Prop where
  verb : params.verb ≠ .None
  count : params.count < 2 ^ 64
  length : params.length < 2 ^ 64
  repeat_ : params.repeat_ < 2 ^ 64
  warmupCount : params.warmupCount < 2 ^ 64
  mrCount : params.mrCount < 2 ^ 64

/-- The parameter sets `parse_args` returns with. -/
def Accepted (params : DccsParameters) : Prop := ∃ raw, Scanned raw ∧ finishArgs raw = .ok params

/-- The warm-up adjustment keeps every field in range. -/
theorem Scanned.addWarmup {params : DccsParameters} (h : Scanned params) :
    Scanned (addWarmup params) := by
  unfold RdmaOpera.addWarmup
  split
  · exact ⟨h.verb, Nat.mod_lt _ (by decide), h.length, h.repeat_, h.warmupCount, h.mrCount⟩
  · exact h

theorem validateArgs_ok {params params' : DccsParameters} (h : validateArgs params = .ok params') :
    params' = params ∧ 0 < params.count ∧ 0 < params.length ∧ 0 < params.mrCount ∧
      params.count % params.mrCount = 0 ∧ 0 < params.repeat_ := by
  unfold validateArgs at h
  split_ifs at h
  cases h
  exact ⟨rfl, by omega, by omega, by omega, by omega, by omega⟩

namespace Accepted

variable {params : DccsParameters} (h : Accepted params)
include h

/-- An accepted set passed the checks and has its fields in range. -/
theorem scanned : Scanned params := by
  obtain ⟨raw, hr, h⟩ := h
  obtain ⟨rfl, -⟩ := validateArgs_ok h
  exact hr.addWarmup

theorem checked : 0 < params.count ∧ 0 < params.length ∧ 0 < params.mrCount ∧
    params.count % params.mrCount = 0 ∧ 0 < params.repeat_ := by
  obtain ⟨raw, -, h⟩ := h
  obtain ⟨rfl, hc⟩ := validateArgs_ok h
  exact hc

/-- At least one request to a region. -/
theorem quotient_pos : 0 < params.count / params.mrCount := by
  obtain ⟨hcount, -, hmr, hmod, -⟩ := h.checked
  exact Nat.div_pos (Nat.le_of_dvd hcount (Nat.dvd_of_mod_eq_zero hmod)) hmr

end Accepted

/-- A client that sends one byte once. -/
def oneSend : DccsParameters where
  verb := .Send
  count := 1
  length := 1
  repeat_ := 1
  server := some "10.0.0.2"
  port := "1234"
  mode := .latency
  warmupCount := 0
  mrCount := 1
  direction := .dirOut
  index := 0
  tos := 0
  verbose := false

theorem accepted_oneSend : Accepted oneSend :=
  ⟨oneSend, ⟨by decide, by decide, by decide, by decide, by decide, by decide⟩, rfl⟩

/-- Two regions of two requests each. -/
def fourRequests : DccsParameters := { oneSend with count := 4, length := 8, mrCount := 2 }

theorem accepted_fourRequests : Accepted fourRequests :=
  ⟨fourRequests, ⟨by decide, by decide, by decide, by decide, by decide, by decide⟩, rfl⟩

/-- They are written twice; only the last one of a round is signaled. -/
def fourWrites : DccsParameters :=
  { fourRequests with verb := .Write, mode := .throughput, repeat_ := 2 }

theorem accepted_fourWrites : Accepted fourWrites :=
  ⟨fourWrites, ⟨by decide, by decide, by decide, by decide, by decide, by decide⟩, rfl⟩

/-- The server for them. -/
def fourWritten : DccsParameters := { fourWrites with server := none }

theorem accepted_fourWritten : Accepted fourWritten :=
  ⟨fourWritten, ⟨by decide, by decide, by decide, by decide, by decide, by decide⟩, rfl⟩

end RdmaOpera
