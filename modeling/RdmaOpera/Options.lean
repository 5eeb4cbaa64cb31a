import RdmaOpera.Lib.Scan
import RdmaOpera.Parameters

/-!
# The command line: `parse_args`

| here | there |
| --- | --- |
| `shortOption`, `longOption`   | the two tables given to `getopt_long` (`dccs_utils.h:329-345`) |
| `defaultParams`               | `:310-323`, with the values of `dccs_config.h:24-32` |
| `parseOption`                 | the `switch` over `c` (`:349-437`) |
| `parseArgs`                   | `:307-460` |

`getopt_long` is the C library's. A command line is what it makes of `argv`: the options in the
order it returns them, each with its `optarg`, and the operands that are left over.
-/

namespace RdmaOpera

open Lib

/-- What `getopt_long` returns; `?` for an option that is in neither table. -/
inductive Opt where
  | blockSize | mrCount | count | verb | port | mode | repeat_ | warmup | direction | index | tos | verbose | help
  | unrecognized
deriving DecidableEq, Repr

/-- An option as it is written: `-c` or `--count`. -/
inductive Spelling where
  | short (c : Char)
  | long (name : String)
deriving DecidableEq, Repr

/-- `"b:c:v:p:m:r:w:i:Vh"`. -/
def shortOption : Char → Opt
  | 'b' => .blockSize
  | 'c' => .count
  | 'v' => .verb
  | 'p' => .port
  | 'm' => .mode
  | 'r' => .repeat_
  | 'w' => .warmup
  | 'i' => .index
  | 'V' => .verbose
  | 'h' => .help
  | _ => .unrecognized

/-- `long_options`. -/
def longOption (name : String) : Opt :=
  if name = "block_size" then .blockSize
  else if name = "mr_count" then .mrCount
  else if name = "count" then .count
  else if name = "verb" then .verb
  else if name = "port" then .port
  else if name = "mode" then .mode
  else if name = "repeat" then .repeat_
  else if name = "warmup" then .warmup
  else if name = "direction" then .direction
  else if name = "index" then .index
  else if name = "tos" then .tos
  else if name = "verbose" then .verbose
  else if name = "help" then .help
  else .unrecognized

def Spelling.opt : Spelling → Opt
  | .short c => shortOption c
  | .long name => longOption name

/-- An option with its `optarg` (which `-V` and `-h` do not look at). -/
structure OptionArg where
  spelling : Spelling
  optarg : String
deriving DecidableEq, Repr

def OptionArg.opt (a : OptionArg) : Opt := a.spelling.opt

structure CommandLine where
  options : List OptionArg
  operands : List String := []
deriving DecidableEq, Repr

/-- How `parse_args` ends the program; of a message the format is kept. -/
inductive Stop where
  | success
  | failure (format : String)
deriving DecidableEq, Repr

/-- The label `invalid`. -/
def invalid : Stop := .failure "Unrecognized option value '%s' for option '%c'\n"

/-! ## The option loop -/

def defaultParams : DccsParameters where
  verb := .Send
  count := 1000
  length := 2
  repeat_ := 1
  server := none
  port := "1234"
  mode := .latency
  warmupCount := 0
  mrCount := 1
  direction := .dirOut
  index := 0
  tos := 0
  verbose := false

/-- `if (sscanf(optarg, ..) != 1) goto invalid;` -/
def scanNumber (bits : Nat) (optarg : String) : Except Stop Nat :=
  match scanUnsigned bits optarg.toList with
  | some n => .ok n
  | none => .error invalid

def parseVerb (optarg : String) : Except Stop Verb :=
  if optarg = "read" then .ok .Read
  else if optarg = "write" then .ok .Write
  else .error (.failure "verb must be 'read' or 'write'.\n")

def parseMode (optarg : String) : Except Stop Mode :=
  if optarg = "latency" then .ok .latency
  else if optarg = "throughput" then .ok .throughput
  else .error (.failure "mode must be 'latency' or 'throughput'.\n")

def parseDirection (optarg : String) : Except Stop Direction :=
  if optarg = "1-N" then .ok .dirOut
  else if optarg = "N-1" then .ok .dirIn
  else if optarg = "N-N" then .ok .dirBoth
  else .error invalid

/-- The `switch`: `%zu` reads into 64 bits, `SCNu16` into 16, `SCNu8` into 8. -/
def parseOption (params : DccsParameters) (opt : Opt) (optarg : String) :
    Except Stop DccsParameters := match opt with
  | .blockSize => do pure { params with length := ← scanNumber 64 optarg }
  | .count => do pure { params with count := ← scanNumber 64 optarg }
  | .verb => do pure { params with verb := ← parseVerb optarg }
  | .port => pure { params with port := optarg }
  | .mode => do pure { params with mode := ← parseMode optarg }
  | .repeat_ => do pure { params with repeat_ := ← scanNumber 64 optarg }
  | .warmup => do pure { params with warmupCount := ← scanNumber 64 optarg }
  | .mrCount => do pure { params with mrCount := ← scanNumber 64 optarg }
  | .direction => do pure { params with direction := ← parseDirection optarg }
  | .index => do pure { params with index := UInt16.ofNat (← scanNumber 16 optarg) }
  | .tos => do pure { params with tos := UInt8.ofNat (← scanNumber 8 optarg) }
  | .verbose => pure { params with verbose := true }
  | .help => .error .success
  | .unrecognized => .error (.failure "Unrecognized option '%c'.\n")

def parseOptions (params : DccsParameters) (options : List OptionArg) :
    Except Stop DccsParameters :=
  options.foldlM (fun params a => parseOption params a.opt a.optarg) params

/-! ## The positional argument, and the end -/

/-- `if (optind + 1 == argc) params->server = argv[optind];` -/
def setServer (operands : List String) (params : DccsParameters) : DccsParameters :=
  match operands with
  | [server] => { params with server := some server }
  | _ => params

def parseArgs (commandLine : CommandLine) : Except Stop DccsParameters := do
  let params ← parseOptions defaultParams commandLine.options
  (validateArgs (setServer commandLine.operands (addWarmup params))).mapError .failure

/-! ## What the option loop leaves -/

section
variable {params params' : DccsParameters}

theorem scanNumber_ok {bits : Nat} {optarg : String} {n : Nat} (h : scanNumber bits optarg = .ok n) :
    n < 2 ^ bits := by
  unfold scanNumber scanUnsigned at h
  split at h
  · rename_i heq
    dsimp only at heq
    split at heq
    · cases heq
    · cases heq
      cases h
      exact Nat.mod_lt _ (Nat.pow_pos (by decide))
  · cases h

theorem Except.of_bind_ok {ε α β : Type} {x : Except ε α} {f : α → Except ε β} {b : β}
    (h : x >>= f = .ok b) :
    ∃ a, x = .ok a ∧ f a = .ok b := by
  cases x with
  | error e => cases h
  | ok a => exact ⟨a, rfl, h⟩

/-- Every option keeps the fields in range. -/
theorem Scanned.parseOption (hs : Scanned params) {opt : Opt} {optarg : String}
    (h : parseOption params opt optarg = .ok params') :
    Scanned params' := by
  obtain ⟨hverb, hcount, hlength, hrepeat, hwarmup, hmr⟩ := hs
  cases opt with
  | blockSize =>
    obtain ⟨n, hn, h⟩ := Except.of_bind_ok h
    cases h
    exact ⟨hverb, hcount, scanNumber_ok hn, hrepeat, hwarmup, hmr⟩
  | count =>
    obtain ⟨n, hn, h⟩ := Except.of_bind_ok h
    cases h
    exact ⟨hverb, scanNumber_ok hn, hlength, hrepeat, hwarmup, hmr⟩
  | repeat_ =>
    obtain ⟨n, hn, h⟩ := Except.of_bind_ok h
    cases h
    exact ⟨hverb, hcount, hlength, scanNumber_ok hn, hwarmup, hmr⟩
  | warmup =>
    obtain ⟨n, hn, h⟩ := Except.of_bind_ok h
    cases h
    exact ⟨hverb, hcount, hlength, hrepeat, scanNumber_ok hn, hmr⟩
  | mrCount =>
    obtain ⟨n, hn, h⟩ := Except.of_bind_ok h
    cases h
    exact ⟨hverb, hcount, hlength, hrepeat, hwarmup, scanNumber_ok hn⟩
  | verb =>
    obtain ⟨verb, hv, h⟩ := Except.of_bind_ok h
    cases h
    refine ⟨?_, hcount, hlength, hrepeat, hwarmup, hmr⟩
    unfold parseVerb at hv
    split_ifs at hv <;> cases hv <;> simp
  | mode | direction | index | tos =>
    obtain ⟨x, -, h⟩ := Except.of_bind_ok h
    cases h
    exact ⟨hverb, hcount, hlength, hrepeat, hwarmup, hmr⟩
  | port | verbose =>
    cases h
    exact ⟨hverb, hcount, hlength, hrepeat, hwarmup, hmr⟩
  | help | unrecognized => cases h

theorem scanned_defaultParams : Scanned defaultParams :=
  ⟨by decide, by decide, by decide, by decide, by decide, by decide⟩

theorem Scanned.parseOptions {options : List OptionArg} (hs : Scanned params)
    (h : parseOptions params options = .ok params') :
    Scanned params' := by
  induction options generalizing params with
  | nil =>
    cases h
    exact hs
  | cons a options ih =>
    obtain ⟨params₁, h₁, h⟩ := Except.of_bind_ok h
    exact ih (hs.parseOption h₁) h

/-- The fields of the option loop behind an accepted command line. -/
theorem parseArgs_ok {commandLine : CommandLine} (h : parseArgs commandLine = .ok params) :
    ∃ raw, parseOptions defaultParams commandLine.options = .ok raw ∧
      validateArgs (setServer commandLine.operands (addWarmup raw)) = .ok params := by
  obtain ⟨raw, hraw, h⟩ := Except.of_bind_ok h
  refine ⟨raw, hraw, ?_⟩
  cases hv : validateArgs (setServer commandLine.operands (addWarmup raw)) with
  | error e =>
    rw [hv] at h
    cases h
  | ok params' =>
    rw [hv] at h
    cases h
    rfl

theorem addWarmup_setServer (operands : List String) (params : DccsParameters) :
    addWarmup (setServer operands params) = setServer operands (addWarmup params) := by
  unfold addWarmup setServer
  cases operands with
  | nil => rfl
  | cons server rest =>
    cases rest with
    | nil => cases hm : params.mode <;> simp [hm]
    | cons _ _ => rfl

/-- **What `parse_args` returns with is an accepted parameter set.** -/
theorem accepted_of_parseArgs {commandLine : CommandLine} (h : parseArgs commandLine = .ok params) :
    Accepted params := by
  obtain ⟨raw, hraw, hvalid⟩ := parseArgs_ok h
  have hscanned : Scanned raw := scanned_defaultParams.parseOptions hraw
  refine ⟨setServer commandLine.operands raw, ?_, ?_⟩
  · obtain ⟨hverb, hcount, hlength, hrepeat, hwarmup, hmr⟩ := hscanned
    unfold setServer
    split <;> exact ⟨hverb, hcount, hlength, hrepeat, hwarmup, hmr⟩
  · rw [finishArgs, addWarmup_setServer]
    exact hvalid

end

end RdmaOpera
