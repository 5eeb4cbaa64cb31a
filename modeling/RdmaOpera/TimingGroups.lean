import RdmaOpera.TaggedLogs

/-!
# The groups of `process_control_timing.py`

`process_log` on a file that has a header: what it makes of the samples behind it, in groups of
eight (`:91-125`).
-/

namespace RdmaOpera.Logs

open Lib

/-- The numbers of a sample line. -/
structure Timing (F : Type) where
  start : F
  end_ : F
  latency : F

section
variable {F : Type} (float : List Char → Option F) (sub : F → F → F)

def IsHeader (line : List Char) : Prop := rstrip line = timingHeader
def IsFooter (line : List Char) : Prop := rstrip line = timingFooter

def IsSample (line : List Char) (x : Timing F) : Prop :=
  ∃ start end_ rtt, latencyPattern.groups? (rstrip line) = some [start, end_, rtt] ∧
    float start = some x.start ∧
    float end_ = some x.end_ ∧ float rtt = some x.latency

/-- Lines of samples, with headers between them. -/
inductive Body : List (List Char) → List (Timing F) → Prop where
  | nil : Body [] []
  | header {line : List Char} {ls : List (List Char)} {xs : List (Timing F)} :
    IsHeader line → Body ls xs → Body (line :: ls) xs
  | sample {line : List Char} {ls : List (List Char)} {x : Timing F} {xs : List (Timing F)} :
      IsSample float line x → Body ls xs → Body (line :: ls) (x :: xs)

/-- The end of the file, or a footer and whatever comes after it. -/
def IsTail (tail : List (List Char)) : Prop := ∀ line ∈ tail.head?, IsFooter line

/-- What `process_log` returns for the samples. -/
structure Grouped (samples : List (Timing F)) (rtts group : List F) : Prop where
  length : rtts.length = samples.length / groupSize
  rtt : ∀ i first last, samples[groupSize * i]? = some first →
    samples[groupSize * i + 7]? = some last →
    rtts[i]? = some (sub last.end_ first.start)
  group : group = (samples.drop (samples.length - samples.length % groupSize)).map Timing.latency

/-! ## The lines -/

def takeTiming (s : TimingState F) (x : Timing F) : TimingState F :=
  takeSample sub s x.start x.end_ x.latency

theorem latencyPattern_footer : latencyPattern.groups? timingFooter = none := by decide
theorem latencyPattern_header : latencyPattern.groups? timingHeader = none := by decide

variable {float}

theorem IsSample.ne {line : List Char} {x : Timing F} (h : IsSample float line x) :
    rstrip line ≠ timingHeader ∧ rstrip line ≠ timingFooter := by
  obtain ⟨start, end_, rtt, hmatch, -⟩ := h
  constructor
  · intro he
    rw [he, latencyPattern_header] at hmatch
    cases hmatch
  · intro he
    rw [he, latencyPattern_footer] at hmatch
    cases hmatch

theorem processLog_header {line : List Char} (h : IsHeader line) (valid : Bool) (s : TimingState F)
    (rest : List (List Char)) :
    processLog float sub valid s (line :: rest) = processLog float sub true s rest := by
  rw [processLog]
  exact if_pos h

theorem processLog_sample {line : List Char} {x : Timing F} (h : IsSample float line x)
    (s : TimingState F) (rest : List (List Char)) :
    processLog float sub true s (line :: rest) =
      processLog float sub true (takeTiming sub s x) rest := by
  obtain ⟨hheader, hfooter⟩ := h.ne
  obtain ⟨start, end_, rtt, hmatch, hstart, hend, hrtt⟩ := h
  rw [processLog]
  simp only [if_neg hheader, if_neg hfooter, hmatch, takeText, hstart, hend, hrtt]
  rfl

/-- What comes before the first header is not looked at. -/
theorem processLog_before {before : List (List Char)} (h : ∀ line ∈ before, ¬ IsHeader line)
    (s : TimingState F) (rest : List (List Char)) :
    processLog float sub false s (before ++ rest) = processLog float sub false s rest := by
  induction before with
  | nil => rfl
  | cons line before ih =>
    have hline : ¬ rstrip line = timingHeader := h line (by simp)
    rw [List.cons_append, processLog]
    simp only [if_neg hline]
    rw [if_pos Bool.false_ne_true]
    exact ih fun l hl => h l (by simp [hl])

theorem processLog_tail {tail : List (List Char)} (h : IsTail tail) (s : TimingState F) :
    processLog float sub true s tail = .ok s := by
  cases tail with
  | nil => rfl
  | cons line tail =>
    have hfooter : rstrip line = timingFooter := h line rfl
    have hheader : ¬ timingFooter = timingHeader := by decide
    rw [processLog]
    simp only [hfooter, if_neg hheader]
    rfl

/-- The samples are taken one after another, up to the footer. -/
theorem processLog_body {body : List (List Char)} {samples : List (Timing F)}
    (h : Body float body samples) {tail : List (List Char)} (htail : IsTail tail)
    (s : TimingState F) :
    processLog float sub true s (body ++ tail) = .ok (samples.foldl (takeTiming sub) s) := by
  induction h generalizing s with
  | nil => exact processLog_tail sub htail s
  | header hline _ ih =>
    rw [List.cons_append, processLog_header sub hline]
    exact ih s
  | sample hline _ ih =>
    rw [List.cons_append, processLog_sample sub hline]
    exact ih _

/-! ## The groups -/

/-- After some samples: the first start of the group that is not complete. -/
structure Grouping (samples : List (Timing F)) (s : TimingState F) : Prop where
  count : s.count = samples.length
  grouped : Grouped sub samples s.rtts s.group
  first : ∀ x, samples[groupSize * (samples.length / groupSize)]? = some x →
    s.firstStart = some x.start

/-- A sample that does not complete its group. -/
theorem takeTiming_of_ne {s : TimingState F} (h : s.count % groupSize ≠ groupSize - 1)
    (x : Timing F) :
    (takeTiming sub s x).rtts = s.rtts ∧ (takeTiming sub s x).group = s.group ++ [x.latency] ∧
      (takeTiming sub s x).count = s.count + 1 ∧
      (takeTiming sub s x).firstStart =
      if s.count % groupSize = 0 then some x.start else s.firstStart := by
  have hnext : (s.count + 1) % groupSize ≠ 0 := by
    unfold groupSize at h ⊢
    omega
  unfold takeTiming takeSample
  dsimp only
  split
  · rename_i hzero _ _
    exact absurd hzero hnext
  · exact ⟨rfl, rfl, rfl, rfl⟩

/-- One that does. -/
theorem takeTiming_of_eq {s : TimingState F} (h : s.count % groupSize = groupSize - 1) {first : F}
    (hfirst : s.firstStart = some first) (x : Timing F) :
    (takeTiming sub s x).rtts = s.rtts ++ [sub x.end_ first] ∧ (takeTiming sub s x).group = [] ∧
      (takeTiming sub s x).count = s.count + 1 := by
  have hnext : (s.count + 1) % groupSize = 0 := by
    unfold groupSize at h ⊢
    omega
  have hne : s.count % groupSize ≠ 0 := by
    rw [h]
    decide
  unfold takeTiming takeSample
  simp only [if_neg hne, if_pos h, hnext, hfirst]
  exact ⟨trivial, trivial, trivial⟩

/-- Samples that were there before. -/
theorem getElem?_of_concat {α : Type} {l : List α} {a b : α} {i : Nat} (hi : i < l.length)
    (h : (l ++ [a])[i]? = some b) : l[i]? = some b := by
  rwa [List.getElem?_append_left hi] at h

section
variable {samples : List (Timing F)} {s : TimingState F} (h : Grouping sub samples s) (x : Timing F)
include h

theorem Grouping.complete (hlast : samples.length % groupSize = groupSize - 1) :
    Grouping sub (samples ++ [x]) (takeTiming sub s x) := by
  obtain ⟨hcount, ⟨hlength, hrtt, hgroup⟩, hfirst⟩ := h
  have hlen : (samples ++ [x]).length = samples.length + 1 := by simp
  have hbegun : groupSize * (samples.length / groupSize) < samples.length := by
    unfold groupSize at hlast ⊢
    omega
  obtain ⟨begun, hstart⟩ : ∃ begun, samples[groupSize * (samples.length / groupSize)]? =
    some begun := ⟨_, List.getElem?_eq_getElem hbegun⟩
  obtain ⟨hrtts, hempty, hcount'⟩ := takeTiming_of_eq sub (hcount ▸ hlast) (hfirst _ hstart) x
  refine ⟨by rw [hcount', hcount, hlen], ⟨?_, fun i first last hi hl => ?_, ?_⟩, fun y hy => ?_⟩
  · rw [hrtts, List.length_append, hlength, hlen]
    unfold groupSize at hlast ⊢
    simp only [List.length_singleton]
    omega
  · rw [hrtts]
    have hlt := (List.getElem?_eq_some_iff.1 hl).1
    rw [hlen] at hlt
    by_cases hnew : groupSize * i + 7 = samples.length
    · have hi' : i = samples.length / groupSize := by
        unfold groupSize at hnew ⊢
        omega
      rw [hnew, List.getElem?_concat_length] at hl
      cases hl
      rw [hi'] at hi
      have hsame := getElem?_of_concat hbegun hi
      rw [hstart] at hsame
      cases hsame
      rw [hi', ← hlength, List.getElem?_concat_length]
    · have hi' : i < s.rtts.length := by
        rw [hlength]
        unfold groupSize at hnew hlt ⊢
        omega
      rw [List.getElem?_append_left hi']
      exact hrtt i first last (getElem?_of_concat (by omega) hi) (getElem?_of_concat (by omega) hl)
  · have hnone : (samples.length + 1) % groupSize = 0 := by
      unfold groupSize at hlast ⊢
      omega
    rw [hempty, hlen, hnone, Nat.sub_zero, ← hlen, List.drop_length]
    rfl
  · have hge := (List.getElem?_eq_some_iff.1 hy).1
    rw [hlen] at hge
    unfold groupSize at hlast hge
    omega

theorem Grouping.extend (hlast : samples.length % groupSize ≠ groupSize - 1) :
    Grouping sub (samples ++ [x]) (takeTiming sub s x) := by
  obtain ⟨hcount, ⟨hlength, hrtt, hgroup⟩, hfirst⟩ := h
  have hlen : (samples ++ [x]).length = samples.length + 1 := by simp
  obtain ⟨hrtts, hgroup', hcount', hfirst'⟩ := takeTiming_of_ne sub (hcount ▸ hlast) x
  have hdiv : (samples.length + 1) / groupSize = samples.length / groupSize := by
    unfold groupSize at hlast ⊢
    omega
  refine ⟨by rw [hcount', hcount, hlen], ⟨?_, fun i first last hi hl => ?_, ?_⟩, fun y hy => ?_⟩
  · rw [hrtts, hlength, hlen, hdiv]
  · rw [hrtts]
    have hlt := (List.getElem?_eq_some_iff.1 hl).1
    rw [hlen] at hlt
    have hne : groupSize * i + 7 ≠ samples.length := by
      unfold groupSize at hlast ⊢
      omega
    exact hrtt i first last (getElem?_of_concat (by omega) hi) (getElem?_of_concat (by omega) hl)
  · have hrest : samples.length + 1 - (samples.length + 1) % groupSize =
      samples.length - samples.length % groupSize := by
      unfold groupSize at hlast ⊢
      omega
    rw [hgroup', hgroup, hlen, hrest, List.drop_append_of_le_length (Nat.sub_le _ _),
      List.map_append]
    rfl
  · rw [hfirst']
    rw [hlen, hdiv] at hy
    by_cases hzero : samples.length % groupSize = 0
    · have hend : groupSize * (samples.length / groupSize) = samples.length :=
        Nat.mul_div_cancel' (Nat.dvd_of_mod_eq_zero hzero)
      rw [hend, List.getElem?_concat_length] at hy
      cases hy
      rw [hcount, if_pos hzero]
    · have hbegun : groupSize * (samples.length / groupSize) < samples.length := by
        unfold groupSize at hzero ⊢
        omega
      rw [hcount, if_neg hzero]
      exact hfirst y (getElem?_of_concat hbegun hy)

/-- The invariant of the loop. -/
theorem Grouping.take : Grouping sub (samples ++ [x]) (takeTiming sub s x) := by
  by_cases hlast : samples.length % groupSize = groupSize - 1
  · exact h.complete sub x hlast
  · exact h.extend sub x hlast

end

theorem grouping_foldl (samples : List (Timing F)) :
    Grouping sub samples (samples.foldl (takeTiming sub) {}) := by
  induction samples using List.reverseRecOn with
  | nil => exact ⟨rfl, ⟨(Nat.zero_div _).symm, nofun, rfl⟩, nofun⟩
  | append_singleton samples x ih =>
    rw [List.foldl_append]
    exact ih.take sub x

/-- **Grouping of control timings.** -/
theorem processLog_grouped {before body tail : List (List Char)} {header : List Char}
    {samples : List (Timing F)} (hbefore : ∀ line ∈ before, ¬ IsHeader line)
    (hheader : IsHeader header) (hbody : Body float body samples) (htail : IsTail tail) :
    ∃ s, processLog float sub false {} (before ++ header :: (body ++ tail)) = .ok s ∧
      Grouped sub samples s.rtts s.group := by
  refine ⟨samples.foldl (takeTiming sub) {}, ?_, (grouping_foldl sub samples).grouped⟩
  rw [processLog_before sub hbefore, processLog_header sub hheader]
  exact processLog_body sub hbody htail _

/-- A message every ten microseconds, that takes two. -/
def tenthLine (digit : Char) : List Char :=
  "[verbose] ".toList ++ [digit, '0', ',', digit, '2', ',', '2', '\n']

def tenth (digit : Char) : Timing Nat := ⟨int [digit, '0'], int [digit, '2'], 2⟩

theorem body_tenths : ∀ {digits : List Char},
    (∀ digit ∈ digits, latencyPattern.groups? (rstrip (tenthLine digit)) =
      some [[digit, '0'], [digit, '2'], ['2']]) →
    Body (fun text => some (int text)) (digits.map tenthLine) (digits.map tenth)
  | [], _ => .nil
  | digit :: _, h =>
    .sample ⟨[digit, '0'], [digit, '2'], ['2'], h digit List.mem_cons_self, rfl, rfl, rfl⟩
      (body_tenths fun digit' hd => h digit' (List.mem_cons_of_mem digit hd))

/-- Nine messages: a group, and one that is left over. -/
theorem processLog_grouped_nine :
    ∃ s, processLog (fun text => some (int text)) (fun end_ start => end_ - start) false {}
    ("[info] Ready\n".toList :: (timingHeader ++ ['\n']) :: ("012345678".toList.map tenthLine ++
      [timingFooter, "[info] Done\n".toList])) =
      .ok s ∧ s.rtts = [72] ∧ s.group = [2] := by
  have hbefore : ∀ line ∈ ["[info] Ready\n".toList], ¬ IsHeader line := by
    intro line hline
    rw [List.mem_singleton.1 hline, IsHeader]
    decide
  have hheader : IsHeader (timingHeader ++ ['\n']) := by
    rw [IsHeader]
    decide
  have htail : IsTail [timingFooter, "[info] Done\n".toList] := by
    intro line hline
    cases hline
    rw [IsFooter]
    decide
  have hdigits : "012345678".toList.all (fun digit =>
      latencyPattern.groups? (rstrip (tenthLine digit)) =
        some [[digit, '0'], [digit, '2'], ['2']]) = true := by decide
  obtain ⟨s, hs, hlength, hrtt, hgroup⟩ :=
    processLog_grouped (fun end_ start => end_ - start) hbefore hheader
    (body_tenths fun digit hd => decide_eq_true_eq.mp (List.all_eq_true.1 hdigits digit hd)) htail
  refine ⟨s, hs, ?_, hgroup⟩
  obtain ⟨rtt, hone⟩ := List.length_eq_one_iff.1 hlength
  have hfirst := hrtt 0 ⟨0, 2, 2⟩ ⟨70, 72, 2⟩ rfl rfl
  rw [hone] at hfirst ⊢
  cases hfirst
  rfl

end

end RdmaOpera.Logs
