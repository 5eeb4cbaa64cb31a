import RdmaOpera.ResultScript

/-!
# Logs that are read with their tags

| here | there |
| --- | --- |
| `roundPattern`, `mpiLine`        | `plot_mpi_logfile`'s loop over the log (`process_result.py:23-56`) |
| `collect`                        | what that loop does with one match (`:43-56`) |
| `processLog`, `takeSample`       | `process_log` (`process_control_timing.py:91-125`), and what it does with one match |

Both scripts compare with a tag that has no colour, `[info]` and `[verbose]`; `vlog_level` always
prints one.
-/

namespace RdmaOpera.Logs

open Lib

section scripts
variable {F : Type} (float : List Char → Option F)

/-! ## `process_result.py` -/

/-- `([\d|\.]+)` -/
def decimalOrBar : Pattern := [.opn, .many (fun c => c.isDigit || c == '|' || c == '.') 1, .cls]

def roundPattern : Pattern :=
  Pattern.lit "[info]  round = " ++ number ++ Pattern.lit ", rank = " ++ number ++
    Pattern.lit ", bytes recv'd = " ++ number ++
    Pattern.lit ", elapsed = " ++ decimalOrBar ++ Pattern.lit "µsec, throughput = " ++
      decimalOrBar ++ Pattern.lit " gbits" ++
    [.one Pattern.dot, .eol]

structure MpiEntry (F : Type) where
  round : Nat
  rank : Nat
  elapsed : F
  throughput : F

structure MpiState (F : Type) where
  minBytes : Nat := 0
  maxRank : Nat := 0
  maxRound : Nat := 0
  entries : List (Nat × List (MpiEntry F)) := []

/-- The message sizes are multiples of the first one. -/
def collect (s : MpiState F) (bytes : Nat) (e : MpiEntry F) : Except String (MpiState F) :=
  let minBytes := if s.minBytes = 0 then bytes else s.minBytes
  if minBytes = 0 then .error "ZeroDivisionError: integer division or modulo by zero"
  else
    let bytes := bytes / minBytes
    .ok { minBytes, maxRank := max s.maxRank e.rank, maxRound := max s.maxRound e.round
          entries := dictSet s.entries bytes ((s.entries.lookup bytes).getD [] ++ [e]) }

/-- A `ValueError` unless both numbers can be read. -/
def collectText (s : MpiState F) (round rank bytes : Nat) (elapsed throughput : List Char) :
    Except String (MpiState F) :=
  match float elapsed, float throughput with
  | some elapsed, some throughput => collect s bytes { round, rank, elapsed, throughput }
  | _, _ => .error "ValueError: could not convert string to float"

def mpiLine (s : MpiState F) (line : List Char) : Except String (MpiState F) :=
  match roundPattern.groups? line with
  | some [round, rank, bytes, elapsed, throughput] =>
    collectText float s (int round) (int rank) (int bytes) elapsed throughput
  | _ => .ok s

/-- The entries of the rounds reported. -/
def collectRounds (rounds : List RoundReport) : Except String (MpiState F) :=
  rounds.foldlM (fun s x => collectText float s x.round x.rank x.bytesRecvd (fixed3 x.elapsed).chars
    (fixed3 x.throughput).chars) {}

/-- The script collects the rounds that `mpi_exec` has reported. -/
def RoundsRecognised (rounds : List RoundReport) : Prop :=
  (lines (unlines (rounds.map RoundReport.line))).foldlM (mpiLine float) {} =
    collectRounds float rounds

/-! ## `process_control_timing.py` -/

variable (sub : F → F → F)

/-- `([\d.]+)` -/
def decimalText : Pattern := [.opn, .many (fun c => c.isDigit || c == '.') 1, .cls]

def latencyPattern : Pattern :=
  Pattern.lit "[verbose] " ++ decimalText ++ Pattern.lit "," ++ decimalText ++
    Pattern.lit "," ++ decimalText

def timingHeader : List Char := "[verbose] Start,End,Latency".toList
def timingFooter : List Char := "[verbose]".toList

def groupSize : Nat := 8

structure TimingState (F : Type) where
  rtts : List F := []
  group : List F := []
  count : Nat := 0
  firstStart : Option F := none
  lastEnd : Option F := none

/-- A group of eight ends with the difference of its last end and its first start. -/
def takeSample (s : TimingState F) (start end_ rtt : F) : TimingState F :=
  let group := s.group ++ [rtt]
  let firstStart := if s.count % groupSize = 0 then some start else s.firstStart
  let lastEnd := if s.count % groupSize = groupSize - 1 then some end_ else s.lastEnd
  let count := s.count + 1
  match count % groupSize, firstStart, lastEnd with
  | 0, some first, some last =>
    { rtts := s.rtts ++ [sub last first], group := [], count, firstStart, lastEnd }
  | _, _, _ => { s with group, count, firstStart, lastEnd }

def takeText (s : TimingState F) (start end_ rtt : List Char) : Except String (TimingState F) :=
  match float start, float end_, float rtt with
  | some start, some end_, some rtt => .ok (takeSample sub s start end_ rtt)
  | _, _, _ => .error "ValueError: could not convert string to float"

def isSpace (c : Char) : Bool := c.isWhitespace || c == '\x0B' || c == '\x0C'

def rstrip (s : List Char) : List Char := (s.reverse.dropWhile isSpace).reverse

/-- The loop of `process_log`; `valid` from the header on. -/
def processLog : Bool → TimingState F → List (List Char) → Except String (TimingState F)
  | _, s, [] => .ok s
  | valid, s, line :: rest =>
    let line := rstrip line
    if line = timingHeader then processLog true s rest
    else if ¬ valid then processLog valid s rest
    else if line = timingFooter then .ok s
    else match latencyPattern.groups? line with
      | some [start, end_, rtt] => do
        let s ← takeText float sub s start end_ rtt
        processLog valid s rest
      | _ => .error "AttributeError: 'NoneType' object has no attribute 'group'"

def takeSamples (samples : List Sample) : Except String (TimingState F) :=
  samples.foldlM (fun s x => takeText float sub s (fixed3 x.start).chars (fixed3 x.end_).chars
    (fixed3 x.latency).chars) {}

/-- The script sees the samples that `print_raw_latencies` has printed. -/
def SamplesRecognised (samples : List Sample) : Prop :=
  processLog float sub false {} (lines (unlines (printRawLatencies samples))) =
    takeSamples float sub samples

/-! ## What is recognised -/

/-- A line that `vlog_level` has written. -/
def Coloured (line : List Char) : Prop := ∃ rest, line = '[' :: '\x1B' :: rest

theorem coloured_vlogLevel (level : Level) (text : Line) :
    Coloured (vlogLevel level text).ended := by
  obtain ⟨rest, hrest⟩ := chars_vlogLevel level text
  refine ⟨rest ++ text.chars ++ ['\n'], ?_⟩
  rw [Line.ended, hrest]
  rfl

theorem roundPattern_coloured {line : List Char} (h : Coloured line) :
    roundPattern.groups? line = none := by
  obtain ⟨rest, rfl⟩ := h
  rfl

/-- Its first two characters are not stripped. -/
theorem rstrip_coloured {line : List Char} (h : Coloured line) : Coloured (rstrip line) := by
  obtain ⟨rest, rfl⟩ := h
  have hesc : isSpace '\x1B' = false := by decide
  refine ⟨rstrip rest, ?_⟩
  unfold rstrip
  rw [List.reverse_cons, List.reverse_cons, List.append_assoc, List.dropWhile_append]
  split
  · rename_i hnil
    rw [List.isEmpty_iff.1 hnil]
    simp [hesc]
  · simp

theorem ne_header {line : List Char} (h : Coloured line) : line ≠ timingHeader := by
  obtain ⟨rest, rfl⟩ := h
  intro heq
  have hsecond : some '\x1B' = timingHeader[1]? := congrArg (fun l : List Char => l[1]?) heq
  exact absurd hsecond (by decide)

/-- Nothing is collected. -/
theorem foldlM_mpiLine :
    ∀ (ls : List (List Char)) (s : MpiState F), (∀ l ∈ ls, Coloured l) →
      ls.foldlM (mpiLine float) s = .ok s
  | [], _, _ => rfl
  | l :: ls, s, h => by
    have hl : mpiLine float s l = .ok s := by
      rw [mpiLine, roundPattern_coloured (h l List.mem_cons_self)]
    rw [List.foldlM_cons, hl]
    exact foldlM_mpiLine ls s fun l hl => h l (List.mem_cons_of_mem _ hl)

/-- The header is never seen. -/
theorem processLog_coloured :
    ∀ (ls : List (List Char)) (s : TimingState F), (∀ l ∈ ls, Coloured l) →
    processLog float sub false s ls = .ok s
  | [], _, _ => rfl
  | l :: ls, s, h => by
    have hne := ne_header (rstrip_coloured (h l List.mem_cons_self))
    have ih := processLog_coloured ls s fun l hl => h l (List.mem_cons_of_mem _ hl)
    rw [processLog]
    simp only [if_neg hne]
    rw [if_pos Bool.false_ne_true]
    exact ih

/-! ## What should have been -/

/-- What every step brings about holds after the last one. -/
theorem foldlM_last {α σ : Type} {f : σ → α → Except String σ} {P : σ → Prop}
    (hf : ∀ s x t, f s x = .ok t → P t) :
    ∀ {x : α} {xs : List α} {s t : σ}, (x :: xs).foldlM f s = .ok t → P t
  | x, [], s, t, h => by
    rw [List.foldlM_cons] at h
    cases hx : f s x with
    | error e =>
      rw [hx] at h
      cases h
    | ok s₁ =>
      rw [hx] at h
      cases h
      exact hf s x _ hx
  | x, y :: xs, s, t, h => by
    rw [List.foldlM_cons] at h
    cases hx : f s x with
    | error e =>
      rw [hx] at h
      cases h
    | ok s₁ =>
      rw [hx] at h
      exact foldlM_last hf h

theorem collectText_entries {s t : MpiState F} {round rank bytes : Nat}
    {elapsed throughput : List Char}
    (h : collectText float s round rank bytes elapsed throughput = .ok t) : t.entries ≠ [] := by
  unfold collectText at h
  split at h
  · unfold collect at h
    generalize (if s.minBytes = 0 then bytes else s.minBytes) = minBytes at h
    dsimp only at h
    split at h
    · cases h
    · cases h
      exact List.cons_ne_nil _ _
  · cases h

theorem count_takeSample (s : TimingState F) (start end_ rtt : F) :
    (takeSample sub s start end_ rtt).count = s.count + 1 := by
  unfold takeSample
  dsimp only
  split <;> rfl

theorem takeText_count {s t : TimingState F} {start end_ rtt : List Char}
    (h : takeText float sub s start end_ rtt = .ok t) :
    t.count ≠ 0 := by
  unfold takeText at h
  split at h
  · cases h
    rw [count_takeSample]
    exact Nat.succ_ne_zero _
  · cases h

theorem roundsRecognised_iff (rounds : List RoundReport) :
    RoundsRecognised float rounds ↔ rounds = [] := by
  have hloop : (lines (unlines (rounds.map RoundReport.line))).foldlM (mpiLine float) {} = .ok {} := by
    refine foldlM_mpiLine float _ _ fun l hl => ?_
    rw [lines_unlines] at hl
    obtain ⟨line, hline, rfl⟩ := List.mem_map.1 hl
    obtain ⟨x, -, rfl⟩ := List.mem_map.1 hline
    exact coloured_vlogLevel _ _
  rw [RoundsRecognised, hloop]
  cases rounds with
  | nil => exact ⟨fun _ => rfl, fun _ => rfl⟩
  | cons x rounds =>
    constructor
    · intro h
      have hentries :=
        foldlM_last (P := fun s : MpiState F => s.entries ≠ [])
        (fun s x t ht => collectText_entries float ht) h.symm
      exact absurd rfl hentries
    · exact fun h => nomatch h

theorem samplesRecognised_iff (samples : List Sample) :
    SamplesRecognised float sub samples ↔ samples = [] := by
  have hloop : processLog float sub false {} (lines (unlines (printRawLatencies samples))) = .ok {} := by
    refine processLog_coloured float sub _ _ fun l hl => ?_
    rw [lines_unlines] at hl
    obtain ⟨line, hline, rfl⟩ := List.mem_map.1 hl
    simp only [printRawLatencies, List.mem_append, List.mem_cons, List.not_mem_nil,
      or_false, List.mem_map] at hline
    rcases hline with ((rfl | rfl) | ⟨x, -, rfl⟩) | rfl
    all_goals exact coloured_vlogLevel _ _
  rw [SamplesRecognised, hloop]
  cases samples with
  | nil => exact ⟨fun _ => rfl, fun _ => rfl⟩
  | cons x samples =>
    constructor
    · intro h
      have hcount := foldlM_last (P := fun s : TimingState F => s.count ≠ 0)
        (fun s x t ht => takeText_count float sub ht) h.symm
      exact absurd rfl hcount
    · exact fun h => nomatch h

/-- **Tagged logs.** The two scripts recognise what was printed if and only if nothing was. -/
theorem taggedLogs_iff (rounds : List RoundReport) (samples : List Sample) :
    RoundsRecognised float rounds ∧ SamplesRecognised float sub samples ↔ rounds = [] ∧
      samples = [] := by
  rw [roundsRecognised_iff, samplesRecognised_iff]

end scripts

/-- One round of five bytes, and one sample. -/
theorem taggedLogs_counterexample :
    ¬ (RoundsRecognised readThousandths [⟨0, 1, 5, 2000, 20⟩] ∧
      SamplesRecognised readThousandths (· - ·) [⟨1000, 2500, 1500⟩]) := by
  intro h
  have hrounds := (roundsRecognised_iff _ _).1 h.1
  cases hrounds

end RdmaOpera.Logs
