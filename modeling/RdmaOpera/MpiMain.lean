import Mathlib.Data.BitVec
import RdmaOpera.Lib.Prog
import RdmaOpera.Parameters

/-!
# `mpi_exec`: `mpi_main.c`

| here | there |
| --- | --- |
| `MOp`                                | the MPI calls, and what is done to `buf`; a buffer is an offset into it |
| `.barrierEnter`, `.barrierLeave`     | `MPI_Barrier` |
| `.testall`                           | the loop `while (!done) MPI_Testall(total_count, requests, &done, ..);` |
| `.recvPost`, `.recvWait`             | `MPI_Recv` |
| `sendMessages`, `recvMessages`       | `:61-163`, as configured: `MPI_USE_ASYNC_VERB`, `MPI_FIRE_AND_FORGET`, no `MPI_USE_WAIT` |
| `verifyChecksum`, `strncmp`          | `:33-56`, and the C library's `strncmp` on arrays of unsigned bytes |
| `exchange`, `run`, `runRandom`       | `:221-248`, `:165-262` with and without `TEST_SYNC_PACKET`; the packet is not printed |

SHA-1 is a parameter. `requests` is an array of `requestCount * count` handles; a handle is its
index in it, `request_sent`, an `int`.
-/

namespace RdmaOpera

open Lib Prog

/-- Conversion to a 32-bit `int`. -/
def cInt (n : Nat) : Int := (BitVec.ofNat 32 n).toInt

theorem cInt_of_lt {n : Nat} (h : n < 2 ^ 31) : cInt n = n := by
  have hnat : (BitVec.ofNat 32 n).toNat = n := by
    rw [BitVec.toNat_ofNat]
    exact Nat.mod_eq_of_lt (by omega)
  rw [cInt, BitVec.toInt_eq_toNat_of_lt (by rw [hnat]; omega), hnat]

theorem cInt_lt (n : Nat) : cInt n < 2 ^ 31 := BitVec.toInt_lt

/-- The first number that an `int` does not hold is negative as one. -/
theorem lt_of_cInt_nonneg {n : Nat} (hle : n ≤ 2 ^ 31) (h : 0 ≤ cInt n) : n < 2 ^ 31 := by
  refine Nat.lt_of_le_of_ne hle ?_
  rintro rfl
  exact absurd h (by decide)

/-- `++` on an `int`; from the largest one it goes to the smallest. -/
def intSucc (n : Int) : Int := (BitVec.ofInt 32 (n + 1)).toInt

theorem intSucc_cInt (n : Nat) : intSucc (cInt n) = cInt (n + 1) := by
  unfold intSucc cInt
  congr 1
  rw [BitVec.ofInt_add, BitVec.ofInt_toInt, BitVec.ofNat_add]
  rfl

def shaDigestLength : Nat := 20

abbrev Digest := Vector UInt8 shaDigestLength

inductive MOp where
  | barrierEnter
  | barrierLeave
  | isend (offset : Nat) (length : Int) (dest : Nat) (request : Int)
  | requestFree (request : Int)
  | irecv (offset : Nat) (length : Int) (src : Nat) (request : Int)
  | testall (totalCount : Int)
  | send (data : List UInt8) (dest : Nat)
  | recvPost (length src : Nat)
  | recvWait
  | mallocRandom (size : Nat)
  | store (offset : Nat) (bytes : List UInt8)
  | load (length : Nat)
  | free
  | getCycles
  | logError (format : String)
  | logRound (r rank bytesRecvd : Nat) (start end_ : UInt64)

abbrev MOp.Ans : MOp → Type
  | .recvWait | .load _ => List UInt8
  | .mallocRandom _ => Bool
  | .getCycles => UInt64
  | _ => Unit

abbrev Mpi : Sig := ⟨MOp, MOp.Ans⟩

abbrev MProg := Prog Mpi

namespace MpiExec

/-- A call whose answer says nothing. -/
def act (op : MOp) : MProg Unit := .call op fun _ => .ret ()

def barrier : MProg Unit := do
  act .barrierEnter
  act .barrierLeave

/-! ## Messages -/

def hostAll : Int := -1
def hostNoself : Int := -2

/-- The `continue` statements of the inner loops. -/
def skips (target : Int) (rank host : Nat) : Prop :=
  if target = hostNoself ∧ (host : Int) = rank then True
  else target ≠ hostAll ∧ target ≠ hostNoself ∧ (host : Int) ≠ target

instance (target : Int) (rank host : Nat) : Decidable (skips target rank host) := by
  unfold skips; infer_instance

/-- The check both functions start with. -/
def invalid (target : Int) (size : Nat) : Prop :=
  target ≠ hostAll ∧ target ≠ hostNoself ∧ (target < 0 ∨ target ≥ size)

instance (target : Int) (size : Nat) : Decidable (invalid target size) :=
  inferInstanceAs (Decidable (_ ∧ _))

def requestCount (target : Int) (size : Nat) : Nat :=
  if target = hostAll then size else if target = hostNoself then size - 1 else 1

/-- `request_sent`, and `*bytes_sent` or `*bytes_recvd`. -/
structure Posted where
  requestSent : Int := 0
  bytes : Nat
deriving DecidableEq, Repr

section post
variable (post : Nat → Int → Nat → Int → MProg Unit) (params : DccsParameters) (target : Int) (rank : Nat)

def postOne (n host : Nat) (s : Posted) : MProg Posted :=
  if skips target rank host then pure s
  else do
    post (sizeT (n * params.length)) (cInt params.length) host s.requestSent
    pure { requestSent := intSucc s.requestSent, bytes := sizeT (s.bytes + params.length) }

/-- The two nested loops: block `n` for every host that is not skipped. -/
def postMessages (size bytes : Nat) : MProg Posted :=
  forN params.count (fun n s => forN size (postOne post params target rank n) s) { bytes }

end post

/-- `MPI_Isend`, then `MPI_Request_free`. -/
def fireAndForget (offset : Nat) (length : Int) (dest : Nat) (request : Int) : MProg Unit := do
  act (.isend offset length dest request)
  act (.requestFree request)

def sendMessages (size rank : Nat) (params : DccsParameters) (target : Int) (bytesSent : Nat) :
    MProg (Int × Nat) :=
  if invalid target size then do
    act (.logError "Invalid send destination %d.\n")
    pure (-1, bytesSent)
  else do
    let s ← postMessages fireAndForget params target rank size bytesSent
    pure (0, s.bytes)

def recvMessages (size rank : Nat) (params : DccsParameters) (source : Int) (bytesRecvd : Nat) :
    MProg (Int × Nat) :=
  if invalid source size then do
    act (.logError "Invalid receive source %d.\n")
    pure (-1, bytesRecvd)
  else do
    let s ← postMessages (fun offset length src request => act (.irecv offset length src request))
      params source rank size bytesRecvd
    act (.testall (cInt (requestCount source size * params.count)))
    pure (0, s.bytes)

/-! ## The checksum -/

/-- The sign of `strncmp` does not matter here, its being zero does: it stops at a difference, at a
zero byte, or after `n` bytes. -/
def strncmp : Nat → List UInt8 → List UInt8 → Int
  | n + 1, a :: as, b :: bs =>
    if a ≠ b then (a.toNat : Int) - b.toNat else if a = 0 then 0 else strncmp n as bs
  | _, _, _ => 0

/-- The loop of rank 0, `k` turns from rank `src` on. -/
def verifyFrom (digest : Digest) : Nat → Nat → MProg Int
  | 0, _ => pure 0
  | k + 1, src => do
    act (.recvPost shaDigestLength src)
    let remoteDigest ← Prog.op (S := Mpi) .recvWait
    if strncmp shaDigestLength digest.toList remoteDigest ≠ 0 then do
      act (.logError "Incorrect SHA sum from rank %d.\n")
      pure (-1)
    else verifyFrom digest k (src + 1)

section sha1
variable (sha1sum : List UInt8 → Digest)

def verifyChecksum (bufferSize rank size : Nat) : MProg Int := do
  let buf ← Prog.op (S := Mpi) (.load bufferSize)
  let digest := sha1sum buf
  if rank = 0 then verifyFrom digest (size - 1) 1
  else do
    act (.send digest.toList 0)
    pure 0

/-! ## The run -/

structure Targets where
  shouldSend : Bool
  shouldRecv : Bool
  sendTarget : Int
  recvSource : Int

/-- The `switch` over the direction. -/
def targets (rank : Nat) : Direction → Targets
  | .dirOut =>
    { shouldSend := rank = 0, shouldRecv := rank ≠ 0, sendTarget := hostNoself, recvSource := 0 }
  | .dirIn =>
    { shouldSend := rank ≠ 0, shouldRecv := rank = 0, sendTarget := 0, recvSource := hostNoself }
  | .dirBoth =>
    { shouldSend := true, shouldRecv := true, sendTarget := hostNoself, recvSource := hostNoself }

def round (size rank : Nat) (params : DccsParameters) (r : Nat) (_ : Unit) : MProg Unit := do
  let t := targets rank params.direction
  barrier
  let _ ← (if t.shouldSend then sendMessages size rank params t.sendTarget 0
    else pure (0, 0) : MProg (Int × Nat))
  if t.shouldRecv then do
    let start ← Prog.op (S := Mpi) .getCycles
    let (_, bytesRecvd) ← recvMessages size rank params t.recvSource 0
    let end_ ← Prog.op (S := Mpi) .getCycles
    act (.logRound r rank bytesRecvd start end_)
  else pure ()

/-- The rounds and the closing checksum, on a buffer of any size; the value is `verify_checksum`'s. -/
def exchange (size rank : Nat) (params : DccsParameters) : MProg Int := do
  forN params.repeat_ (round size rank params) ()
  verifyChecksum sha1sum (sizeT (params.length * params.count)) rank size

/-- `"sync"`, and the slot number behind it. -/
def syncPacketHeader : List UInt8 := [115, 121, 110, 99]

def run (size rank : Nat) (params : DccsParameters) : MProg Int := do
  let params := { params with count := 1, length := syncPacketHeader.length + 1 }
  let allocated ← Prog.op (S := Mpi) (.mallocRandom (sizeT (params.length * params.count)))
  if ¬ allocated then .spin else do
  act (.store 0 (syncPacketHeader ++ [0]))
  act (.store syncPacketHeader.length [0])
  let _ ← exchange sha1sum size rank params
  act .free
  pure 0

/-- `run` compiled without `TEST_SYNC_PACKET`. -/
def runRandom (size rank : Nat) (params : DccsParameters) : MProg Int := do
  let allocated ← Prog.op (S := Mpi) (.mallocRandom (sizeT (params.length * params.count)))
  if ¬ allocated then .spin else do
  let _ ← exchange sha1sum size rank params
  act .free
  pure 0

end sha1

end MpiExec

end RdmaOpera
