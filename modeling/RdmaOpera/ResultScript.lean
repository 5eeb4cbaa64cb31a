import RdmaOpera.Logging
import RdmaOpera.Parameters

/-!
# `process_rdma_result.py --log mine`

| here | there |
| --- | --- |
| `stripTag`, `transformLatency`     | `:25-34` |
| `clientLine`                       | the body of the loop over the client log (`:40-71`) |
| `serverLoop`                       | the loop over the server log (`:74-85`) |
| `processRdmaResult`                | both; plotting is left out |

A dictionary is an association list with every key once. `float` and `int` of a float are
parameters: `none` is a `ValueError`.
-/

namespace RdmaOpera.Logs

open Lib

/-! ## Python -/

/-- `d[k] = v`. -/
def dictSet {α : Type} (d : List (Nat × α)) (k : Nat) (v : α) : List (Nat × α) :=
  (k, v) :: d.filter fun e => e.1 ≠ k

theorem lookup_dictSet {α : Type} (d : List (Nat × α)) (k : Nat) (v : α) (k' : Nat) :
    (dictSet d k v).lookup k' = if k' = k then some v else d.lookup k' := by
  unfold dictSet
  by_cases hk : k' = k
  · simp [hk]
  · rw [if_neg hk, List.lookup_cons, beq_false_of_ne hk]
    show (d.filter fun e => e.1 ≠ k).lookup k' = d.lookup k'
    induction d with
    | nil => rfl
    | cons x d ih =>
      rw [List.lookup_cons, List.filter_cons]
      by_cases hx : x.1 = k
      · rw [if_neg (by simpa using hx), ih, beq_false_of_ne fun h => hk (h.trans hx)]
      · rw [if_pos (by simpa using hx), List.lookup_cons, ih]

/-- `d[k]` is changed by `add`, and is `zero` before that if `k` is not in `d`. -/
def dictAdd {κ α β : Type} [DecidableEq κ] (zero : α) (add : α → β → α) (k : κ) (x : β) :
    List (κ × α) → List (κ × α)
  | [] => [(k, add zero x)]
  | (k', v) :: d => if k' = k then (k', add v x) :: d else (k', v) :: dictAdd zero add k x d

/-- A list that a dictionary has a key for from its first element on. -/
def held {α : Type} : List α → Option (List α)
  | [] => none
  | l => some l

theorem getD_held {α : Type} (l : List α) : (held l).getD [] = l := by
  cases l <;> rfl

/-- `int(s)` of decimal digits. -/
def int (digits : List Char) : Nat := Nat.ofDigitChars 10 digits 0

/-- `float(s)` in thousandths, of a text that `%.3lf` has printed. -/
def readThousandths (text : List Char) : Option Nat := some (int (text.filter (· != '.')))

/-- `(\d+)`, `(\d+\.\d+)`. -/
def number : Pattern := [.opn, .many Pattern.digit 1, .cls]
def decimal : Pattern := [.opn, .many Pattern.digit 1, .one (· == '.'), .many Pattern.digit 1, .cls]

/-- `^\[.*\] *` -/
def tagPattern : Pattern :=
  [.one (· == '['), .many Pattern.dot 0, .one (· == ']'), .many (· == ' ') 0]

def lengthPattern : Pattern := Pattern.lit "Length = " ++ number

def sha1sumPattern : Pattern :=
  Pattern.lit "SHA1 sum: count = " ++ number ++ Pattern.lit ", length = " ++ number ++
    Pattern.lit ", digest = " ++
    [.opn, .many Pattern.word 1, .cls, .one Pattern.dot, .eol]

def transferredPattern : Pattern :=
  Pattern.lit "Transferred: " ++ number ++ Pattern.lit " B, elapsed: " ++ decimal ++
    Pattern.lit "e" ++
    [.opn, .one (fun c => c == '+' || c == '-'), .many Pattern.digit 1, .cls] ++
      Pattern.lit " s, throughput: " ++ decimal ++
    Pattern.lit " Gbps" ++ [.one Pattern.dot]

/-- The header the script waits for. -/
def scriptHeader : List Char :=
  "#bytes, #iterations, median, average, min, max, stdev, percent90, percent99".toList

def stripTag (line : List Char) : List Char := match tagPattern.match? line with
  | some (_, rest) => rest
  | none => line

section script
variable {F : Type} (float : List Char → Option F) (truncate : F → Int) (mode : Mode)

def transformLatency (line : List Char) : Option (List F) := (line.splitOn ',').mapM float

structure ClientState (F : Type) where
  blockSize : Nat := 0
  latencyHeader : Bool := false
  latencies : List (Nat × List F) := []
  throughputs : List (Nat × F) := []
  checksum : List (Nat × List Char) := []

/-- `if latency_header:` -/
def latencyLine (s : ClientState F) (line : List Char) : Except String (ClientState F) :=
  if s.latencyHeader then
    match transformLatency float line with
    | none => .error "ValueError: could not convert string to float"
    | some latency =>
      if (latency.head?.map truncate) ≠ some (s.blockSize : Int) then
        .error "ValueError: Inconsistent length in latency report"
      else
        .ok { s with latencies := dictSet s.latencies s.blockSize latency, latencyHeader := false }
  else .ok s

def throughputLine (s : ClientState F) (line : List Char) : Except String (ClientState F) :=
  match transferredPattern.groups? line with
  | some [_, _, _, throughput] =>
    match float throughput with
    | none => .error "ValueError: could not convert string to float"
    | some throughput => .ok { s with throughputs := dictSet s.throughputs s.blockSize throughput }
  | _ => .ok s

def checksumLine (s : ClientState F) (line : List Char) : ClientState F :=
  match sha1sumPattern.groups? line with
  | some [_, length, digest] => { s with checksum := dictSet s.checksum (int length) digest }
  | _ => s

def clientLine (s : ClientState F) (line : List Char) : Except String (ClientState F) :=
  let line := stripTag line
  match lengthPattern.groups? line with
  | some [n] => .ok { s with blockSize := int n }
  | _ =>
    if mode = .latency ∧ scriptHeader <:+: line then .ok { s with latencyHeader := true }
    else do
      let s ← (if mode = .latency then latencyLine float truncate s line
        else throughputLine float s line)
      pure (checksumLine s line)

def clientLoop (log : List Char) : Except String (ClientState F) :=
  (lines log).foldlM (clientLine float truncate mode) {}

end script

/-- The lengths reported, and the exception that ended the loop. -/
def serverLoop (checksum : List (Nat × List Char)) : List (List Char) → List Nat × Option String
  | [] => ([], none)
  | line :: rest =>
    match lengthPattern.groups? line with
    | some [_] => serverLoop checksum rest
    | _ => match sha1sumPattern.groups? line with
      | some [_, length, digest] => match checksum.lookup (int length) with
        | none => ([], some "KeyError")
        | some expected =>
          let (reports, raised) := serverLoop checksum rest
          (if expected ≠ digest then int length :: reports else reports, raised)
      | _ => serverLoop checksum rest

/-- The lengths for which `Incorrect checksum` is printed, and the exception that ended the script. -/
def processRdmaResult {F : Type} (float : List Char → Option F) (truncate : F → Int) (mode : Mode)
    (clientLog serverLog : List Char) :
    List Nat × Option String := match clientLoop float truncate mode clientLog with
  | .error e => ([], some e)
  | .ok s => serverLoop s.checksum (lines serverLog)

end RdmaOpera.Logs
