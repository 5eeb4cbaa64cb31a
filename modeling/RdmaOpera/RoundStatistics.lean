import Mathlib.Algebra.GroupWithZero.Nat
import RdmaOpera.TaggedLogs

/-!
# The statistics of `plot_mpi_logfile`

The entries of a log are put into buckets, and every bucket gives one point of the plot.

| here | there |
| --- | --- |
| `collectAll`          | the loop over the log, on its parsed entries (`process_result.py:43-56`) |
| `tally`               | the loop over a bucket (`:66-76`) |
| `report`              | the loop over the buckets (`:62-84`) |

What is computed from the sums of a bucket, the minimum, the average, the maximum and the deviation,
is a parameter, and so are the numbers.
-/

namespace RdmaOpera.Logs

variable {F : Type}

def collectAll (log : List (Nat × MpiEntry F)) : Except String (MpiState F) :=
  log.foldlM (fun s x => collect s x.1 x.2) {}

/-- `WARMUP`. -/
def warmupRuns : Nat := 2

/-- `v[WARMUP:-1]` -/
def trimmed (v : List (MpiEntry F)) : List (MpiEntry F) := (v.drop warmupRuns).dropLast

section
variable {M R : Type} (metric : Nat → MpiEntry F → M) (zero : M) (add : M → M →
  M) (stats : List M → R)

/-- The sums of the metric, which is `elapsed / min_bytes` or `throughput`, for each round and rank. -/
def tally (minBytes : Nat) (v : List (MpiEntry F)) : List ((Nat × Nat) × M) :=
  v.foldl (fun t e => dictAdd zero add (e.round, e.rank) (metric minBytes e) t) []

def statistics (minBytes : Nat) (v : List (MpiEntry F)) : R :=
  stats ((tally metric zero add minBytes v).map Prod.snd)

/-- `data` and `stdevs`; `arr`, which is `trimmed v`, is not looked at. -/
def report (s : MpiState F) : List (Nat × R) :=
  s.entries.map fun (bytes, v) => (bytes, statistics metric zero add stats s.minBytes v)

end

/-- The entries of one size. -/
def ofSize (log : List (Nat × MpiEntry F)) (bytes : Nat) : List (MpiEntry F) :=
  (log.filter fun x => x.1 = bytes).map Prod.snd

/-- Whatever is computed for a size is computed from its own entries, less the warm-up and the last. -/
structure StatisticsTrimmed (log : List (Nat × MpiEntry F)) : Prop where
  computed : ∀ bytes ∈ log.map Prod.fst, ∃ s, collectAll log = .ok s ∧
    ∀ (M R : Type) (metric : Nat → MpiEntry F → M) (zero : M) (add : M → M →
      M) (stats : List M → R),
      (report metric zero add stats s).lookup (bytes / s.minBytes) =
        some (statistics metric zero add stats s.minBytes (trimmed (ofSize log bytes)))
  apart : ∀ s, collectAll log = .ok s → ∀ bytes ∈ log.map Prod.fst, ∀ bytes' ∈ log.map Prod.fst,
    bytes / s.minBytes = bytes' / s.minBytes → bytes = bytes'

/-! ## The buckets -/

theorem lookup_map_snd {α β : Type} (f : α → β) (d : List (Nat × α)) (k : Nat) :
    (d.map fun (k, v) => (k, f v)).lookup k = (d.lookup k).map f := by
  induction d with
  | nil => rfl
  | cons x d ih =>
    rw [List.map_cons, List.lookup_cons, List.lookup_cons, ih]
    cases k == x.1 <;> rfl

/-- The entries of bucket `k`, if the first size is `minBytes`. -/
def bucket (minBytes k : Nat) (log : List (Nat × MpiEntry F)) : List (MpiEntry F) :=
  (log.filter fun x => x.1 / minBytes = k).map Prod.snd

theorem collect_ok {s : MpiState F} (hm : s.minBytes ≠ 0) (bytes : Nat) (e : MpiEntry F) :
    ∃ s', collect s bytes e = .ok s' ∧
    s'.minBytes = s.minBytes ∧ s'.entries = dictSet s.entries (bytes / s.minBytes)
      ((s.entries.lookup (bytes / s.minBytes)).getD [] ++ [e]) := by
  unfold collect
  simp [hm]

/-- Every entry goes to the end of the bucket of its quotient. -/
theorem foldlM_collect {minBytes : Nat} (hm : minBytes ≠ 0) (log : List (Nat × MpiEntry F)) :
    ∀ (s : MpiState F) (before : Nat → List (MpiEntry F)), s.minBytes = minBytes →
      (∀ k, s.entries.lookup k = held (before k)) →
    ∃ s', log.foldlM (fun s x => collect s x.1 x.2) s = .ok s' ∧ s'.minBytes = minBytes ∧
      ∀ k, s'.entries.lookup k = held (before k ++ bucket minBytes k log) := by
  induction log with
  | nil =>
    intro s before hs hbefore
    exact ⟨s, rfl, hs, fun k => by rw [hbefore]; simp [bucket]⟩
  | cons x log ih =>
    intro s before hs hbefore
    obtain ⟨s₁, hcollect, hs₁, hentries⟩ := collect_ok (hs ▸ hm) x.1 x.2
    have hnext : ∀ k, s₁.entries.lookup k = held (before k ++ bucket minBytes k [x]) := by
      intro k
      rw [hentries, lookup_dictSet, hbefore, getD_held, hs]
      by_cases hk : x.1 / minBytes = k
      · subst hk
        simp [bucket, held]
      · rw [if_neg (Ne.symm hk), hbefore]
        simp [bucket, hk]
    obtain ⟨s', hfold, hs', hlookup⟩ := ih s₁ _ (hs₁.trans hs) hnext
    refine ⟨s', ?_, hs', fun k => ?_⟩
    · rw [List.foldlM_cons, hcollect]
      exact hfold
    · rw [hlookup, List.append_assoc]
      simp [bucket, ← List.map_append, ← List.filter_append]

/-- The buckets of a log whose first size is not 0. -/
theorem collectAll_cons {bytes : Nat} (hbytes : bytes ≠ 0) (e : MpiEntry F)
    (log : List (Nat × MpiEntry F)) :
    ∃ s, collectAll ((bytes, e) :: log) = .ok s ∧ s.minBytes = bytes ∧
      ∀ k, s.entries.lookup k = held (bucket bytes k ((bytes, e) :: log)) := by
  have hfirst : collect ({} : MpiState F) bytes e = collect { minBytes := bytes } bytes e := by
    unfold collect
    simp [hbytes]
  obtain ⟨s, hs, hmin, hlookup⟩ :=
    foldlM_collect hbytes ((bytes, e) :: log) { minBytes := bytes } (fun _ => []) rfl fun _ => rfl
  refine ⟨s, ?_, hmin, hlookup⟩
  rw [collectAll, List.foldlM_cons, hfirst,
    ← List.foldlM_cons (f := fun s (x : Nat × MpiEntry F) => collect s x.1 x.2) (a := (bytes, e)), hs]

/-- **What is reported**: for each quotient, the statistics of all its entries. -/
theorem report_lookup {M R : Type} (metric : Nat → MpiEntry F → M) (zero : M) (add : M → M → M)
    (stats : List M → R) {bytes : Nat} (hbytes : bytes ≠ 0) (e : MpiEntry F)
    (log : List (Nat × MpiEntry F)) :
    ∃ s, collectAll ((bytes, e) :: log) = .ok s ∧ s.minBytes = bytes ∧
      ∀ k, (report metric zero add stats s).lookup k =
      (held (bucket bytes k ((bytes, e) :: log))).map (statistics metric zero add stats bytes) := by
  obtain ⟨s, hs, hmin, hlookup⟩ := collectAll_cons hbytes e log
  refine ⟨s, hs, hmin, fun k => ?_⟩
  rw [report, lookup_map_snd, hlookup, hmin]

/-! ## Nothing is left out -/

theorem sum_dictAdd (key : Nat × Nat) (t : List ((Nat × Nat) × Nat)) :
    ((dictAdd 0 (· + ·) key 1 t).map Prod.snd).sum = (t.map Prod.snd).sum + 1 := by
  induction t with
  | nil => rfl
  | cons x t ih =>
    unfold dictAdd
    by_cases hx : x.1 = key
    · simp only [hx, if_true, List.map_cons, List.sum_cons]
      omega
    · simp only [hx, if_false, List.map_cons, List.sum_cons, ih]
      omega

/-- A metric that counts the entries. -/
theorem statistics_count (minBytes : Nat) (v : List (MpiEntry F)) :
    statistics (fun _ _ => 1) 0 (· + ·) List.sum minBytes v = v.length := by
  have hfold : ∀ (v : List (MpiEntry F)) (t : List ((Nat × Nat) × Nat)),
      ((v.foldl (fun t e => dictAdd 0 (· + ·) (e.round, e.rank) 1 t) t).map Prod.snd).sum =
        (t.map Prod.snd).sum + v.length := by
    intro v
    induction v with
    | nil =>
      intro t
      rfl
    | cons e v ih =>
      intro t
      rw [List.foldl_cons, ih, sum_dictAdd, List.length_cons]
      omega
  rw [statistics, tally, hfold]
  exact Nat.zero_add _

theorem length_ofSize_le (log : List (Nat × MpiEntry F)) (minBytes bytes : Nat) :
    (ofSize log bytes).length ≤ (bucket minBytes (bytes / minBytes) log).length := by
  unfold ofSize bucket
  rw [List.length_map, List.length_map]
  refine (List.monotone_filter_right log fun x hx => ?_).length_le
  rw [decide_eq_true_eq] at hx ⊢
  rw [hx]

/-- The first entry of a log already is in statistics that it should not be in, or not with as many
others. -/
theorem StatisticsTrimmed.eq_nil {log : List (Nat × MpiEntry F)} (h : StatisticsTrimmed log) :
    log = [] := by
  cases log with
  | nil => rfl
  | cons x log =>
    obtain ⟨bytes, e⟩ := x
    obtain ⟨s, hs, hreport⟩ := h.computed bytes (by simp)
    by_cases hbytes : bytes = 0
    · subst hbytes
      cases hs
    · obtain ⟨s', hs', hmin, hlookup⟩ :=
        report_lookup (fun _ _ => 1) 0 (· + ·) List.sum hbytes e log
      rw [hs] at hs'
      cases hs'
      have hcount := hreport Nat Nat (fun _ _ => 1) 0 (· + ·) List.sum
      rw [hmin, hlookup, statistics_count] at hcount
      obtain ⟨v, hv, hlen⟩ := Option.map_eq_some_iff.1 hcount
      rw [statistics_count] at hlen
      have hbucket : v = bucket bytes (bytes / bytes) ((bytes, e) :: log) := by
        rw [← getD_held (bucket bytes (bytes / bytes) _), hv]
        rfl
      have hle := length_ofSize_le ((bytes, e) :: log) bytes bytes
      have hpos : 0 < (ofSize ((bytes, e) :: log) bytes).length := by simp [ofSize]
      rw [← hbucket, hlen] at hle
      simp only [trimmed, List.length_dropLast, List.length_drop, warmupRuns] at hle
      omega

/-- **Statistics of the rounds.** Nothing is trimmed: they are as announced only for a log without
entries. -/
theorem statisticsTrimmed_iff (log : List (Nat × MpiEntry F)) :
    StatisticsTrimmed log ↔ log = [] := by
  refine ⟨StatisticsTrimmed.eq_nil, ?_⟩
  rintro rfl
  exact ⟨nofun, fun _ _ _ h => nomatch h⟩

/-- Two rounds for warming up, one that counts, and the last one, by rank 0. -/
def fourRounds : List (Nat × MpiEntry Nat) :=
  [(4, ⟨0, 0, 4, 9⟩), (4, ⟨1, 0, 4, 9⟩), (4, ⟨2, 0, 4, 5⟩), (4, ⟨3, 0, 4, 7⟩)]

/-- The largest throughput reported is that of the warm-up; and sizes 4 and 6 are one. -/
theorem statisticsTrimmed_counterexample : ¬ StatisticsTrimmed fourRounds ∧
    (collectAll fourRounds).toOption.map (report (fun _ e => e.throughput) 0 (· + ·) List.max?) =
      some [(1, some 9)] ∧
    statistics (fun _ e => e.throughput) 0 (· + ·) List.max? 4 (trimmed (ofSize fourRounds 4)) = some 5 ∧
    (collectAll (fourRounds ++ [(6, ⟨4, 0, 6, 8⟩)])).toOption.map (fun s => s.entries.map
      fun x => (x.1, x.2.length)) = some [(1, 5)] := by
  refine ⟨fun h => ?_, by decide, by decide, by decide⟩
  cases h.eq_nil

end RdmaOpera.Logs
