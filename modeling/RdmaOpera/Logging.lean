import RdmaOpera.Lib.Pattern

/-!
# What the programs write to their logs

| here | there |
| --- | --- |
| `vlogLevel`                       | `vlog_level` (`dccs_utils.h:36-78`, with `DEBUG`; `log_perror` has the tag of an error); both streams end up in one file |
| `binToHexString`, `fixed3`        | `bin_to_hex_string` (`dccs_utils.h:126`); `%.3f` of a value given in thousandths |
| `sha1sumLine`                     | `print_sha1sum` (`dccs_rdma.h:814`) |
| `printRawLatencies`               | `print_raw_latencies` (`:820-827`) |
| `printLatencyReportRaw`           | `print_latency_report_raw` (`:845-846`, `:871-891`): what it prints, not what it computes |
| `printThroughputReport`           | `print_throughput_report` (`:927-930`), likewise |
| `RoundReport.line`                | the report of a round of `mpi_exec` (`mpi_main.c:243`) |
| `lengthLine`                      | `echo "Length = $l ..."` of the run scripts |
-/

namespace RdmaOpera.Logs

open Lib

inductive Level where
  | verbose | info | debug | warning | error
deriving DecidableEq, Repr

/-- One hexadecimal digit. -/
def digitLine (d : Fin 16) : Line := ⟨[Nat.digitChar d], by
  have hdigit : ∀ d : Fin 16, '\n' ≠ Nat.digitChar d := by decide
  exact fun h => hdigit d (List.mem_singleton.1 h)⟩

def binToHexString (bytes : List UInt8) : Line :=
  bytes.foldr (fun b s => digitLine (Fin.ofNat 16 (b.toNat / 16)) ++
    digitLine (Fin.ofNat 16 b.toNat) ++ s) (.lit "")

def fixed3 (n : Nat) : Line :=
  .num (n / 1000) ++ .lit "." ++ .num (n / 100 % 10) ++ .num (n / 10 % 10) ++ .num (n % 10)

/-- A message, without the newline its format ends with. -/
def vlogLevel (level : Level) (message : Line) : Line := match level with
  | .verbose => .lit "[\x1B[34mverbose\x1B[0m] " ++ message
  | .info => .lit "[\x1B[36minfo\x1B[0m]  " ++ message
  | .debug => .lit "[\x1B[35mdebug\x1B[0m] " ++ message
  | .warning => .lit "[\x1B[33mwarn\x1B[0m]  " ++ message
  | .error => .lit "[\x1B[31merror\x1B[0m] " ++ message

/-- The tag of every level is coloured: behind the bracket comes an escape sequence. -/
theorem chars_vlogLevel (level : Level) (message : Line) :
    ∃ rest, (vlogLevel level message).chars = '[' :: '\x1B' :: (rest ++ message.chars) := by
  cases level <;> exact ⟨_, rfl⟩

def lengthLine (n : Nat) : Line := .lit "Length = " ++ .num n ++ .lit " ..."

def blankLine : Line := .lit ""

/-! ## `print_sha1sum` -/

def sha1sumLine (count length : Nat) (digest : List UInt8) : Line :=
  vlogLevel .info (.lit "SHA1 sum: count = " ++ .num count ++ .lit ", length = " ++
    .num length ++ .lit ", digest = " ++
    binToHexString digest ++ .lit ".")

/-- Without the tag. -/
def sha1sumText (count length : Nat) (digest : List UInt8) : Line :=
  .lit "SHA1 sum: count = " ++ .num count ++ .lit ", length = " ++ .num length ++ .lit ", digest = " ++
    binToHexString digest ++ .lit "."

/-! ## Latencies -/

/-- One raw latency, in thousandths of a microsecond. -/
structure Sample where
  start : Nat
  end_ : Nat
  latency : Nat
deriving DecidableEq, Repr

def Sample.line (x : Sample) : Line :=
  fixed3 x.start ++ .lit "," ++ fixed3 x.end_ ++ .lit "," ++ fixed3 x.latency

def printRawLatencies (samples : List Sample) : List Line :=
  [vlogLevel .verbose (.lit "Raw latency (µsec):"),
    vlogLevel .verbose (.lit "Start,End,Latency")] ++
    samples.map (fun x => vlogLevel .verbose x.line) ++ [vlogLevel .verbose (.lit "")]

/-- The statistics of one latency report, in thousandths of a microsecond. -/
structure LatencyRow where
  length : Nat
  median : Nat
  average : Nat
  min : Nat
  max : Nat
  stdev : Nat
  percent90 : Nat
  percent99 : Nat
deriving DecidableEq, Repr

/-- The fields of the printed row. -/
def LatencyRow.fields (row : LatencyRow) (requestsLength : Nat) : List Line :=
  [.num requestsLength, .num row.length] ++
    [row.median, row.average, row.min, row.max, row.stdev, row.percent90, row.percent99].map fixed3

/-- Fields with `sep` between them. -/
def joined (sep : Line) : List Line → Line
  | [] => .lit ""
  | [l] => l
  | l :: ls => l ++ sep ++ joined sep ls

def headerText : Line :=
  .lit "#bytes, #length, median, average, min, max, stdev, percent90, percent99"

/-- `print_latency_report_raw`; the raw latencies are printed if `verbose`. -/
def printLatencyReportRaw (requestsLength : Nat) (row : LatencyRow) (raw : Option (List Sample))
    (finishedCount : Nat) : List Line :=
  [vlogLevel .info (.lit "====================="), vlogLevel .info (.lit "Latency Report")] ++
    (raw.map printRawLatencies).getD [] ++
    [vlogLevel .info headerText, vlogLevel .info (joined (.lit ", ") (row.fields requestsLength)),
      vlogLevel .info (.lit "# of requests sent in 180 µsec: " ++ .num finishedCount ++ .lit "."),
      vlogLevel .info (.lit "====================="), .lit ""]

/-! ## Throughput -/

/-- What `%.3e` prints of a value that is not negative: a mantissa in thousandths, and an exponent. -/
structure Scientific where
  mantissa : Nat
  negative : Bool
  exponent : Nat
  normal : (1000 ≤ mantissa ∧ mantissa < 10000) ∨ (mantissa = 0 ∧ exponent = 0)

/-- An exponent has two digits at least. -/
def Scientific.digits (x : Scientific) : Line :=
  if x.exponent < 10 then .lit "0" ++ .num x.exponent else .num x.exponent

def Scientific.line (x : Scientific) : Line :=
  fixed3 x.mantissa ++ .lit "e" ++ (if x.negative then .lit "-" else .lit "+") ++ x.digits

/-- What `%.3f` prints of a rate: the time it is divided by may be 0. -/
inductive Rate where
  | finite (thousandths : Nat)
  | inf
  | nan

def Rate.line : Rate → Line
  | .finite n => fixed3 n
  | .inf => .lit "inf"
  | .nan => .lit "-nan"

structure ThroughputRow where
  transferedBytes : Nat
  elapsedSeconds : Scientific
  throughputGbits : Rate

def ThroughputRow.text (row : ThroughputRow) : Line :=
  .lit "Transferred: " ++ .num row.transferedBytes ++ .lit " B, elapsed: " ++ row.elapsedSeconds.line ++
    .lit " s, throughput: " ++ row.throughputGbits.line ++ .lit " Gbps."

def printThroughputReport (row : ThroughputRow) : List Line :=
  [vlogLevel .info (.lit "====================="), vlogLevel .info (.lit "Throughput Report"),
    vlogLevel .info row.text, vlogLevel .info (.lit "====================="), blankLine]

/-! ## The rounds of `mpi_exec` -/

/-- What `run` reports of one round; the times and rates are in thousandths. -/
structure RoundReport where
  round : Nat
  rank : Nat
  bytesRecvd : Nat
  elapsed : Nat
  throughput : Nat
deriving DecidableEq, Repr

def RoundReport.line (x : RoundReport) : Line :=
  vlogLevel .info (.lit "round = " ++ .num x.round ++ .lit ", rank = " ++ .num x.rank ++
    .lit ", bytes recv'd = " ++
    .num x.bytesRecvd ++ .lit ", elapsed = " ++ fixed3 x.elapsed ++ .lit "µsec, throughput = " ++
      fixed3 x.throughput ++
    .lit " gbits.")

end RdmaOpera.Logs
