import Mathlib.Data.Rat.Floor
import RdmaOpera.Parameters

/-!
# The reports of a round

| here | there |
| --- | --- |
| `sortLatencies`            | `sort_latencies` (`dccs_utils.h:207-222`) |
| `printLatencyReportRaw`    | `print_latency_report_raw` (`dccs_rdma.h:832-896`) |
| `printLatencyReport`       | `print_latency_report` (`:898-910`) |
| `printThroughputReport`    | `print_throughput_report` (`:915-931`) |

A `double` is a rational number, and what is printed is the result; of the standard deviation that
is the radicand. There is no result if an array is read outside its bounds or an index does not fit
an `int`.
-/

namespace RdmaOpera

/-- `MILLION`. -/
def million : Nat := 1000000

/-- `DCCS_CYCLE_UPTIME`, in µsec. -/
def dccsCycleUptime : Nat := 180

/-- `DBL_MAX`. -/
def dblMax : ℚ := (2 ^ 53 - 1) * 2 ^ 971

/-- `(double)cycles * MILLION / (double)clock_rate`. -/
def microseconds (clockRate cycles : UInt64) : ℚ := cycles.toNat * million / clockRate.toNat

/-- Unsigned 64-bit subtraction. -/
def sizeSub (a b : Nat) : Nat := sizeT (a + 2 ^ 64 - b)

theorem sizeSub_of_le {a b : Nat} (h : b ≤ a) (ha : a < 2 ^ 64) : sizeSub a b = a - b := by
  have hsplit : a + 2 ^ 64 - b = (a - b) + 2 ^ 64 := by omega
  rw [sizeSub, sizeT, hsplit, Nat.add_mod_right, Nat.mod_eq_of_lt (by omega)]

/-! ## Latencies -/

def compareDouble (a b : ℚ) : Int := if a < b then -1 else if a > b then 1 else 0

/-- `qsort`. -/
def sortLatencies (latencies : List ℚ) : List ℚ :=
  latencies.mergeSort fun a b => compareDouble a b ≤ 0

/-- The variables of the first loop. -/
structure LatencySums where
  sum : ℚ := 0
  min : ℚ := dblMax
  max : ℚ := 0
  finishedCount : Nat := 0
  dstarts : List ℚ := []
  dends : List ℚ := []
  latencies : List ℚ := []

/-- One turn of it. -/
def addLatency (clockRate : UInt64) (firstStart : ℚ) (starts ends : List UInt64) (s : LatencySums)
    (n : Nat) : LatencySums :=
  let start := starts.getD n 0
  let end_ := ends.getD n 0
  let elapsedCycles := end_ - start
  let dstart := microseconds clockRate start
  let dend := microseconds clockRate end_
  let latency := microseconds clockRate elapsedCycles
  { sum := s.sum + latency
    min := if latency < s.min then latency else s.min
    max := if latency > s.max then latency else s.max
    finishedCount :=
      if dend - firstStart ≤ dccsCycleUptime then s.finishedCount + 1 else s.finishedCount
    dstarts := s.dstarts ++ [dstart]
    dends := s.dends ++ [dend]
    latencies := s.latencies ++ [latency] }

structure LatencyReport where
  length : Nat
  median : ℚ
  average : ℚ
  min : ℚ
  max : ℚ
  /-- the square of `stdev` -/
  variance : ℚ
  percent90 : ℚ
  percent99 : ℚ
  finishedCount : Nat
  /-- the lines of `print_raw_latencies` -/
  raw : Option (List (ℚ × ℚ × ℚ))
deriving DecidableEq, Repr

/-- `(int)((double)length * fraction)`. -/
def percentileIndex (length : Nat) (fraction : ℚ) : Option Nat :=
  let i := ⌊length * fraction⌋
  if i < 2 ^ 31 then some i.toNat else none

def printLatencyReportRaw (clockRate : UInt64) (starts ends : List UInt64) (length : Nat)
    (begin_ : UInt64) (verbose : Bool) :
    Option LatencyReport :=
  if starts.length < length ∨ ends.length < length then none else do
  let firstStart := microseconds clockRate begin_
  let s := (List.range length).foldl (addLatency clockRate firstStart starts ends) {}
  let latencies := sortLatencies s.latencies
  let median ← latencies[length / 2]?
  let percent90 ← latencies[← percentileIndex length (9 / 10)]?
  let percent99 ← latencies[← percentileIndex length (99 / 100)]?
  let average := s.sum / length
  let sumsq := latencies.foldl (fun sumsq latency => sumsq + (latency - average) ^ 2) 0
  pure { length, median, average, min := s.min, max := s.max, variance := sumsq / length, percent90, percent99,
         finishedCount := s.finishedCount,
         raw := if verbose then some (s.dstarts.zip (s.dends.zip s.latencies)) else none }

def printLatencyReport (clockRate : UInt64) (params : DccsParameters) (requests : List DccsRequest) :
    Option LatencyReport :=
  if requests.length < params.count then none else
  let start := (List.range params.count).map fun n => (reqAt requests n).start
  let end_ := (List.range params.count).map fun n => (reqAt requests n).end_
  printLatencyReportRaw clockRate start end_ params.count (reqAt requests 0).start params.verbose

/-! ## Throughput -/

structure ThroughputReport where
  transferedBytes : Nat
  elapsedSeconds : ℚ
  throughputGbits : ℚ
deriving DecidableEq, Repr

def printThroughputReport (clockRate : UInt64) (params : DccsParameters)
    (requests : List DccsRequest) : Option ThroughputReport := do
  let transferedBytes := sizeT (sizeSub params.count params.warmupCount * params.length)
  let first ← requests[params.warmupCount]?
  let last ← requests[sizeSub params.count 1]?
  let elapsedSeconds := ((last.end_ - first.start).toNat / clockRate.toNat : ℚ)
  let throughputBytesPerSecond := transferedBytes / elapsedSeconds
  pure { transferedBytes, elapsedSeconds, throughputGbits := throughputBytesPerSecond * 8 / 1000000000 }

end RdmaOpera
