import RdmaOpera.Options
import RdmaOpera.Reports

/-!
# The warm-up requests

In throughput mode `parse_args` adds the warm-up to the count before it validates the sum, and the
report takes it off again: what was asked for is never looked at.
-/

namespace RdmaOpera

/-- The requests `c` and the warm-up `w` of the command line, in the parameters and in the report of
a round. -/
structure WarmupAccounted (c w : Nat) (params : DccsParameters) : Prop where
  count : params.count = c + w
  warmup : params.warmupCount < params.count
  rest : sizeSub params.count params.warmupCount = c
  report : ∀ clockRate requests, requests.length = params.count →
    ∃ report, printThroughputReport clockRate params requests = some report ∧
      report.transferedBytes = c * params.length

/-- The parameters of throughput mode are those of the option loop but for the count and the server. -/
theorem parseArgs_throughput {commandLine : CommandLine} {raw params : DccsParameters}
    (hraw : parseOptions defaultParams commandLine.options = .ok raw)
    (h : parseArgs commandLine = .ok params) (hmode : params.mode = .throughput) :
    params.count = sizeT (raw.count + raw.warmupCount) ∧ params.warmupCount = raw.warmupCount ∧
      params.length = raw.length ∧
      0 < params.count := by
  obtain ⟨raw', hraw', hvalid⟩ := parseArgs_ok h
  rw [hraw] at hraw'
  cases hraw'
  obtain ⟨rfl, hpos, -⟩ := validateArgs_ok hvalid
  have hserver : ∀ q : DccsParameters, (setServer commandLine.operands q).count = q.count ∧
      (setServer commandLine.operands q).warmupCount = q.warmupCount ∧
        (setServer commandLine.operands q).length = q.length ∧
      (setServer commandLine.operands q).mode = q.mode := by
    intro q
    unfold setServer
    split <;> exact ⟨rfl, rfl, rfl, rfl⟩
  obtain ⟨hcount, hwarmup, hlength, hm⟩ := hserver (addWarmup raw)
  have hraw : raw.mode = .throughput := by
    rw [hm] at hmode
    unfold addWarmup at hmode
    split at hmode
    · assumption
    · exact hmode
  rw [hcount, hwarmup, hlength]
  rw [hcount] at hpos
  rw [addWarmup, if_pos hraw] at hpos ⊢
  exact ⟨rfl, rfl, rfl, hpos⟩

/-- **Warm-up accounting**: something was asked for, and neither the sum nor the number of bytes
wraps. -/
theorem warmupAccounted_iff {commandLine : CommandLine} {raw params : DccsParameters}
    (hraw : parseOptions defaultParams commandLine.options = .ok raw)
    (h : parseArgs commandLine = .ok params) (hmode : params.mode = .throughput) :
    WarmupAccounted raw.count raw.warmupCount params ↔
      0 < raw.count ∧ raw.count + raw.warmupCount < 2 ^ 64 ∧ raw.count * raw.length < 2 ^ 64 := by
  obtain ⟨hcount, hwarmup, hlength, hpos⟩ := parseArgs_throughput hraw h hmode
  constructor
  · rintro ⟨hsum, hlt, -, hreport⟩
    have hfit : params.count < 2 ^ 64 := hcount ▸ sizeT_lt _
    refine ⟨by omega, by omega, ?_⟩
    obtain ⟨report, hreport, hbytes⟩ :=
      hreport 1 (List.replicate params.count {}) (List.length_replicate)
    simp only [printThroughputReport, Option.bind_eq_bind, Option.bind_eq_some_iff] at hreport
    obtain ⟨first, -, last, -, hreport⟩ := hreport
    cases hreport
    rw [← hlength, ← hbytes]
    exact sizeT_lt _
  · rintro ⟨hc, hfit, hbytes⟩
    rw [sizeT_of_lt hfit] at hcount
    have hrest : sizeSub params.count params.warmupCount = raw.count := by
      rw [sizeSub_of_le (by omega) (by omega)]
      omega
    refine ⟨hcount, by omega, hrest, fun clockRate requests hlen => ?_⟩
    have hlast : sizeSub params.count 1 = params.count - 1 := sizeSub_of_le hpos (by omega)
    have hfirst : params.warmupCount < requests.length := by omega
    have hlast' : sizeSub params.count 1 < requests.length := by omega
    refine ⟨_, by rw [printThroughputReport, List.getElem?_eq_getElem hfirst,
      List.getElem?_eq_getElem hlast']; rfl, ?_⟩
    show sizeT (sizeSub params.count params.warmupCount * params.length) = _
    rw [hrest, hlength, sizeT_of_lt hbytes]

/-- Eight requests behind two of warm-up. -/
def eightRequests : CommandLine where
  options := [⟨.short 'm', "throughput"⟩, ⟨.short 'c', "8"⟩, ⟨.short 'w', "2"⟩]

theorem warmupAccounted_iff_eightRequests :
    ∃ params, parseArgs eightRequests = .ok params ∧ WarmupAccounted 8 2 params := by
  have hraw : parseOptions defaultParams eightRequests.options =
      .ok { defaultParams with mode := .throughput, count := 8, warmupCount := 2 } := by decide
  exact ⟨{ defaultParams with mode := .throughput, count := 10, warmupCount := 2 }, by decide,
    (warmupAccounted_iff hraw (by decide) rfl).2 (by decide)⟩

/-- Nothing but warm-up. -/
def onlyWarmup : CommandLine where
  options := [⟨.short 'm', "throughput"⟩, ⟨.short 'c', "0"⟩, ⟨.short 'w', "5"⟩]

theorem warmupAccounted_counterexample :
    ∃ raw params, parseOptions defaultParams onlyWarmup.options = .ok raw ∧
    parseArgs onlyWarmup = .ok params ∧ params.mode = .throughput ∧
      ¬ WarmupAccounted raw.count raw.warmupCount params := by
  refine ⟨{ defaultParams with mode := .throughput, count := 0, warmupCount := 5 },
    { defaultParams with mode := .throughput, count := 5, warmupCount := 5 },
      by decide, by decide, rfl, fun h => ?_⟩
  exact absurd h.warmup (by decide)

end RdmaOpera
