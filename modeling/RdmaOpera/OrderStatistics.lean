import Mathlib.Tactic.NormNum
import RdmaOpera.Lib.Rank
import RdmaOpera.Reports

/-!
# The statistics of a latency report

`print_latency_report_raw` keeps the smallest and the greatest latency as it goes, and reads the
percentiles off the sorted array at a truncated fraction of its length.
-/

namespace RdmaOpera

open Lib

/-- The time between the two timestamps of a sample, in µsec. -/
def sample (clockRate : UInt64) (starts ends : List UInt64) (n : Nat) : ℚ :=
  ((ends.getD n 0).toNat - (starts.getD n 0).toNat) * million / clockRate.toNat

def samplesOf (clockRate : UInt64) (starts ends : List UInt64) (length : Nat) : List ℚ :=
  (List.range length).map (sample clockRate starts ends)

structure OrderStatistics (samples : List ℚ) (report : LatencyReport) : Prop where
  min_mem : report.min ∈ samples
  min_le : ∀ x ∈ samples, report.min ≤ x
  max_mem : report.max ∈ samples
  le_max : ∀ x ∈ samples, x ≤ report.max
  ordered : report.min ≤ report.median ∧ report.median ≤ report.percent90 ∧
    report.percent90 ≤ report.percent99 ∧
    report.percent99 ≤ report.max
  average : report.min ≤ report.average ∧ report.average ≤ report.max
  below_median : samples.length ≤ 2 * samples.countP fun x => x ≤ report.median
  above_median : samples.length ≤ 2 * samples.countP fun x => report.median ≤ x
  percent90 : 9 * samples.length ≤ 10 * samples.countP fun x => x ≤ report.percent90
  percent99 : 99 * samples.length ≤ 100 * samples.countP fun x => x ≤ report.percent99

section
variable {clockRate : UInt64} {starts ends : List UInt64} {length : Nat}

/-! ## One sample -/

/-- The unsigned subtraction does not wrap. -/
theorem microseconds_elapsed {n : Nat} (h : starts.getD n 0 ≤ ends.getD n 0) :
    microseconds clockRate (ends.getD n 0 - starts.getD n 0) = sample clockRate starts ends n := by
  rw [microseconds, sample, UInt64.toNat_sub_of_le _ _ h, Nat.cast_sub (UInt64.le_iff_toNat_le.1 h)]

theorem microseconds_nonneg (clockRate cycles : UInt64) : 0 ≤ microseconds clockRate cycles := by
  rw [microseconds]
  positivity

theorem microseconds_lt_dblMax (hrate : 0 < clockRate) (cycles : UInt64) :
    microseconds clockRate cycles < dblMax := by
  have hpos : (1 : ℚ) ≤ clockRate.toNat := by
    exact_mod_cast Nat.succ_le_of_lt (UInt64.lt_iff_toNat_lt.1 hrate)
  have hcycles : (cycles.toNat : ℚ) ≤ 2 ^ 64 := by exact_mod_cast cycles.toNat_lt.le
  have hbig : (2 : ℚ) ^ 64 * million < dblMax := by
    calc (2 : ℚ) ^ 64 * million < (2 ^ 53 - 1) * 2 ^ 32 := by norm_num [million]
      _ ≤ (2 ^ 53 - 1) * 2 ^ 971 :=
        mul_le_mul_of_nonneg_left (pow_le_pow_right₀ (by norm_num) (by decide)) (by norm_num)
  calc microseconds clockRate cycles ≤ cycles.toNat * million := div_le_self (by positivity) hpos
    _ ≤ 2 ^ 64 * million := by gcongr
    _ < dblMax := hbig

/-! ## The loop -/

/-- The variables after the samples `samples`. -/
structure Summed (samples : List ℚ) (s : LatencySums) : Prop where
  latencies : s.latencies = samples
  sum : s.sum = samples.sum
  min_le : ∀ x ∈ samples, s.min ≤ x
  min_mem : s.min = dblMax ∨ s.min ∈ samples
  le_max : ∀ x ∈ samples, x ≤ s.max
  max_mem : s.max = 0 ∨ s.max ∈ samples

theorem addLatency_min (firstStart : ℚ) (s : LatencySums) (n : Nat) :
    (addLatency clockRate firstStart starts ends s n).min =
    min (microseconds clockRate (ends.getD n 0 - starts.getD n 0)) s.min := (min_def_lt _ _).symm

theorem addLatency_max (firstStart : ℚ) (s : LatencySums) (n : Nat) :
    (addLatency clockRate firstStart starts ends s n).max =
    max s.max (microseconds clockRate (ends.getD n 0 - starts.getD n 0)) := (max_def_lt _ _).symm

theorem Summed.addLatency {samples : List ℚ} {s : LatencySums} (h : Summed samples s)
    (firstStart : ℚ) {n : Nat} (hn : starts.getD n 0 ≤ ends.getD n 0) :
    Summed (samples ++ [sample clockRate starts ends n]) (addLatency clockRate firstStart starts ends s n) := by
  obtain ⟨hlat, hsum, hminle, hminmem, hlemax, hmaxmem⟩ := h
  have hlatency : microseconds clockRate (ends.getD n 0 - starts.getD n 0) =
    sample clockRate starts ends n := microseconds_elapsed hn
  refine ⟨?_, ?_, fun y hy => ?_, ?_, fun y hy => ?_, ?_⟩
  · rw [← hlatency, ← hlat]
    rfl
  · rw [← hlatency, List.sum_append, List.sum_singleton, ← hsum]
    rfl
  · rw [addLatency_min, hlatency]
    rcases List.mem_append.1 hy with hy | hy
    · exact (min_le_right _ _).trans (hminle y hy)
    · rw [List.mem_singleton.1 hy]
      exact min_le_left _ _
  · rw [addLatency_min, hlatency]
    rcases min_choice (sample clockRate starts ends n) s.min with hmin | hmin
    · exact .inr (List.mem_append_right _ (by simp [hmin]))
    · rw [hmin]
      exact hminmem.imp id fun hm => List.mem_append_left _ hm
  · rw [addLatency_max, hlatency]
    rcases List.mem_append.1 hy with hy | hy
    · exact (hlemax y hy).trans (le_max_left _ _)
    · rw [List.mem_singleton.1 hy]
      exact le_max_right _ _
  · rw [addLatency_max, hlatency]
    rcases max_choice s.max (sample clockRate starts ends n) with hmax | hmax
    · rw [hmax]
      exact hmaxmem.imp id fun hm => List.mem_append_left _ hm
    · exact .inr (List.mem_append_right _ (by simp [hmax]))

theorem summed_foldl (firstStart : ℚ) : ∀ length, (∀ n < length, starts.getD n 0 ≤ ends.getD n 0) →
    Summed (samplesOf clockRate starts ends length)
      ((List.range length).foldl (addLatency clockRate firstStart starts ends) {})
  | 0, _ => ⟨rfl, rfl, by simp [samplesOf], .inl rfl, by simp [samplesOf], .inl rfl⟩
  | length + 1, h => by
    have ih := summed_foldl firstStart length fun n hn => h n (by omega)
    rw [samplesOf, List.range_succ, List.map_append, List.foldl_append]
    exact ih.addLatency firstStart (h length (by omega))

/-! ## The sorted array -/

theorem compareDouble_le (a b : ℚ) : decide (compareDouble a b ≤ 0) = decide (a ≤ b) := by
  unfold compareDouble
  split
  · rename_i h
    simp [h.le]
  · rename_i h
    split
    · rename_i hgt
      simp [hgt]
    · rename_i hge
      simp [not_lt.1 hge]

theorem sortLatencies_perm (l : List ℚ) : (sortLatencies l).Perm l := List.mergeSort_perm l _

theorem sortLatencies_sorted (l : List ℚ) : (sortLatencies l).Pairwise (· ≤ ·) := by
  have hsorted := @List.pairwise_mergeSort _ (fun a b => decide (compareDouble a b ≤ 0))
    (fun a b c hab hbc => by
      rw [compareDouble_le, decide_eq_true_eq] at *
      exact hab.trans hbc)
    (fun a b => by
      rw [compareDouble_le, compareDouble_le, Bool.or_eq_true, decide_eq_true_eq, decide_eq_true_eq]
      exact le_total a b) l
  refine hsorted.imp fun hab => ?_
  rwa [compareDouble_le, decide_eq_true_eq] at hab

/-- The index of a fraction `a / b` below one. -/
theorem percentileIndex_eq {a b : Nat} (hb : 0 < b) (hab : a < b) (hint : length < 2 ^ 31) :
    percentileIndex length (a / b) = some (length * a / b) := by
  have hfloor : ⌊(length : ℚ) * (a / b)⌋ = ((length * a / b : Nat) : Int) := by
    rw [← mul_div_assoc, ← Nat.cast_mul, Rat.floor_natCast_div_natCast]
    rfl
  have hle : length * a / b ≤ length := by
    rw [Nat.div_le_iff_le_mul_add_pred hb]
    nlinarith
  rw [percentileIndex, hfloor]
  rw [if_pos (by omega), Int.toNat_natCast]

/-! ## The report -/

/-- Where the numbers of a report come from. -/
structure ReadOff (samples : List ℚ) (report : LatencyReport) : Prop where
  sorted : ∃ l : List ℚ, l.Perm samples ∧ l.Pairwise (· ≤ ·) ∧
    l[samples.length / 2]? = some report.median ∧
    l[samples.length * 9 / 10]? = some report.percent90 ∧ l[samples.length * 99 / 100]? =
      some report.percent99
  summed : ∃ s, Summed samples s ∧ report.min = s.min ∧ report.max = s.max
  average : report.average = samples.sum / samples.length

theorem length_samplesOf : (samplesOf clockRate starts ends length).length = length := by
  simp [samplesOf]

theorem printLatencyReportRaw_readOff (begin_ : UInt64) (verbose : Bool) (hpos : 0 < length)
    (hint : length < 2 ^ 31) (hstarts : starts.length = length) (hends : ends.length = length)
    (hlen : ∀ n < length, starts.getD n 0 ≤ ends.getD n 0) :
    ∃ report, printLatencyReportRaw clockRate starts ends length begin_ verbose = some report ∧
      ReadOff (samplesOf clockRate starts ends length) report := by
  have hsummed := @summed_foldl clockRate starts ends (microseconds clockRate begin_) length hlen
  have hperm := sortLatencies_perm (samplesOf clockRate starts ends length)
  have hlength : (sortLatencies (samplesOf clockRate starts ends length)).length = length := by
    rw [hperm.length_eq, length_samplesOf]
  have hmedian : length / 2 < (sortLatencies (samplesOf clockRate starts ends length)).length := by omega
  have h90 : length * 9 / 10 < (sortLatencies (samplesOf clockRate starts ends length)).length := by omega
  have h99 : length * 99 / 100 < (sortLatencies (samplesOf clockRate starts ends length)).length := by
    omega
  have hi90 := percentileIndex_eq (a := 9) (b := 10) (by decide) (by decide) hint
  have hi99 := percentileIndex_eq (a := 99) (b := 100) (by decide) (by decide) hint
  push_cast at hi90 hi99
  unfold printLatencyReportRaw
  dsimp only
  rw [if_neg (by omega), hsummed.latencies, hi90, hi99, List.getElem?_eq_getElem hmedian]
  simp only [Option.bind_eq_bind, Option.bind_some, List.getElem?_eq_getElem h90,
    List.getElem?_eq_getElem h99]
  refine ⟨_, rfl, ⟨⟨_, hperm, sortLatencies_sorted _, ?_, ?_, ?_⟩, ⟨_, hsummed, rfl, rfl⟩, ?_⟩⟩
  · rw [length_samplesOf]
    exact List.getElem?_eq_getElem hmedian
  · rw [length_samplesOf]
    exact List.getElem?_eq_getElem h90
  · rw [length_samplesOf]
    exact List.getElem?_eq_getElem h99
  · rw [length_samplesOf, ← hsummed.sum]

theorem ReadOff.orderStatistics {samples : List ℚ} {report : LatencyReport}
    (h : ReadOff samples report) (hne : samples ≠ []) (hnonneg : ∀ x ∈ samples, 0 ≤ x)
    (hbig : ∀ x ∈ samples, x < dblMax) : OrderStatistics samples report := by
  obtain ⟨⟨l, hperm, hsorted, hmedian, h90, h99⟩, ⟨s, hs, hmin, hmax⟩, haverage⟩ := h
  obtain ⟨y, hy⟩ := List.exists_mem_of_ne_nil samples hne
  have hlength : l.length = samples.length := hperm.length_eq
  obtain ⟨hlt2, hmedian⟩ := List.getElem?_eq_some_iff.1 hmedian
  obtain ⟨hlt90, h90⟩ := List.getElem?_eq_some_iff.1 h90
  obtain ⟨hlt99, h99⟩ := List.getElem?_eq_some_iff.1 h99
  -- neither of the two initial values is left
  have hminmem : s.min ∈ samples := hs.min_mem.resolve_left fun heq =>
    absurd (hs.min_le y hy) (by rw [heq]; exact not_le.2 (hbig y hy))
  have hmaxmem : s.max ∈ samples := by
    rcases hs.max_mem with heq | hmem
    · have hzero : y = 0 := le_antisymm (heq ▸ hs.le_max y hy) (hnonneg y hy)
      rwa [heq, ← hzero]
    · exact hmem
  have hmem : ∀ {i : Nat} (hi : i < l.length), l[i] ∈ samples :=
    fun hi => hperm.mem_iff.1 (List.getElem_mem hi)
  have hcount : ∀ p : ℚ → Bool, l.countP p = samples.countP p := fun p => hperm.countP_eq p
  constructor
  · rwa [hmin]
  · rw [hmin]
    exact hs.min_le
  · rwa [hmax]
  · rw [hmax]
    exact hs.le_max
  · rw [hmin, hmax, ← hmedian, ← h90, ← h99]
    refine ⟨hs.min_le _ (hmem hlt2), getElem_le_getElem hsorted (by omega) _,
      getElem_le_getElem hsorted (by omega) _, hs.le_max _ (hmem hlt99)⟩
  · rw [hmin, hmax, haverage]
    exact ⟨le_mean hne hs.min_le, mean_le hne hs.le_max⟩
  · have := lt_countP_le hsorted hlt2
    rw [hmedian, hcount] at this
    omega
  · have := le_countP_ge hsorted hlt2
    rw [hmedian, hcount] at this
    omega
  · have := lt_countP_le hsorted hlt90
    rw [h90, hcount] at this
    omega
  · have := lt_countP_le hsorted hlt99
    rw [h99, hcount] at this
    omega

/-- **Order statistics**: a report of at least one sample, and no more than an `int` can count, with
every end behind its start. -/
theorem printLatencyReportRaw_orderStatistics (begin_ : UInt64) (verbose : Bool)
    (hrate : 0 < clockRate) (hpos : 0 < length) (hint : length < 2 ^ 31)
    (hstarts : starts.length = length) (hends : ends.length = length)
    (hlen : ∀ n < length, starts.getD n 0 ≤ ends.getD n 0) :
    ∃ report, printLatencyReportRaw clockRate starts ends length begin_ verbose = some report ∧
      OrderStatistics (samplesOf clockRate starts ends length) report ∧ length / 2 < length ∧
      (∃ i, percentileIndex length (9 / 10) = some i ∧ i < length) ∧
      ∃ i, percentileIndex length (99 / 100) = some i ∧ i < length := by
  obtain ⟨report, hreport, hread⟩ :=
    printLatencyReportRaw_readOff begin_ verbose hpos hint hstarts hends hlen
  have hi90 := percentileIndex_eq (a := 9) (b := 10) (by decide) (by decide) hint
  have hi99 := percentileIndex_eq (a := 99) (b := 100) (by decide) (by decide) hint
  push_cast at hi90 hi99
  have hsample : ∀ x ∈ samplesOf clockRate starts ends length, ∃ cycles,
    x = microseconds clockRate cycles := by
    intro x hx
    obtain ⟨n, hn, rfl⟩ := List.mem_map.1 hx
    exact ⟨_, (microseconds_elapsed (hlen n (List.mem_range.1 hn))).symm⟩
  have hne : samplesOf clockRate starts ends length ≠ [] := by
    rw [← List.length_pos_iff, length_samplesOf]
    exact hpos
  refine ⟨report, hreport, hread.orderStatistics hne (fun x hx => ?_) fun x hx => ?_,
    by omega, ⟨_, hi90, by omega⟩, ⟨_, hi99, by omega⟩⟩
  · obtain ⟨cycles, rfl⟩ := hsample x hx
    exact microseconds_nonneg clockRate cycles
  · obtain ⟨cycles, rfl⟩ := hsample x hx
    exact microseconds_lt_dblMax hrate cycles

end

/-- Three round trips of 30, 10 and 20 cycles, at a million cycles a second. -/
theorem printLatencyReportRaw_orderStatistics_three : ∃ report,
    printLatencyReportRaw 1000000 [0, 100, 200] [30, 110, 220] 3 0 false = some report ∧
      OrderStatistics (samplesOf 1000000 [0, 100, 200] [30, 110, 220] 3) report := by
  obtain ⟨report, hreport, hstat, -⟩ :=
    @printLatencyReportRaw_orderStatistics 1000000 [0, 100, 200] [30, 110, 220] 3 0 false
    (by decide) (by decide) (by decide) rfl rfl (by decide)
  exact ⟨report, hreport, hstat⟩

end RdmaOpera
