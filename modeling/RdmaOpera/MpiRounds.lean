import RdmaOpera.MpiWorld

/-!
# The rounds of one rank

| here | there |
| --- | --- |
| `talks`             | which ranks send blocks to which: the `switch` of `run` and the `continue` statements together |
| `blocks`, `rounds`  | what a rank posts for one of its hosts, in one round and in several |
| `Advanced`          | the history of a rank, some rounds later |
-/

namespace RdmaOpera.MpiExec

open Lib Prog

/-! ## Who talks to whom -/

def talks : Direction → Nat → Nat → Prop
  | .dirOut, s, d => s = 0 ∧ d ≠ 0
  | .dirIn, s, d => s ≠ 0 ∧ d = 0
  | .dirBoth, s, d => s ≠ d

instance (direction : Direction) (s d : Nat) : Decidable (talks direction s d) := by
  cases direction <;> unfold talks <;> infer_instance

theorem skips_noself (rank host : Nat) : skips hostNoself rank host ↔ host = rank := by simp [skips]

theorem skips_zero (rank host : Nat) : skips 0 rank host ↔ host ≠ 0 := by
  simp [skips, hostNoself, hostAll]

theorem sends_iff (direction : Direction) (s d : Nat) :
    (targets s direction).shouldSend = true ∧ ¬ skips (targets s direction).sendTarget s d ↔
      talks direction s d := by
  cases direction with
  | dirOut =>
    simp only [targets, talks, skips_noself, decide_eq_true_eq]
    omega
  | dirIn => simp [targets, talks, skips_zero]
  | dirBoth =>
    simp only [targets, talks, skips_noself, true_and]
    omega

theorem receives_iff (direction : Direction) (s d : Nat) :
    (targets d direction).shouldRecv = true ∧ ¬ skips (targets d direction).recvSource d s ↔
      talks direction s d := by
  cases direction with
  | dirOut =>
    simp only [targets, talks, skips_zero, decide_eq_true_eq]
    omega
  | dirIn =>
    simp only [targets, talks, skips_noself, decide_eq_true_eq]
    omega
  | dirBoth => simp [targets, talks, skips_noself]

theorem targets_valid {size rank : Nat} (hrank : rank < size) (direction : Direction) :
    ¬ invalid (targets rank direction).sendTarget size ∧
      ¬ invalid (targets rank direction).recvSource size := by
  have hsize : size ≠ 0 := by omega
  cases direction <;> simp [targets, invalid, hostNoself, hsize]

/-! ## What is posted -/

/-- Block `n` of the buffer, as the calls are given it. -/
def block (params : DccsParameters) (n : Nat) : Place :=
  .block ⟨sizeT (n * params.length), (cInt params.length).toNat⟩

def blocks (params : DccsParameters) (n : Nat) : List Place := (List.range n).map (block params)

def rounds (params : DccsParameters) (n : Nat) : List Place :=
  (List.replicate n (blocks params params.count)).flatten

@[simp] theorem length_blocks (params : DccsParameters) (n : Nat) : (blocks params n).length = n := by
  simp [blocks]

theorem blocks_succ (params : DccsParameters) (n : Nat) :
    blocks params (n + 1) = blocks params n ++ [block params n] := by
  simp [blocks, List.range_succ]

@[simp] theorem length_rounds (params : DccsParameters) (n : Nat) :
    (rounds params n).length = n * params.count := by simp [rounds]

@[simp] theorem rounds_zero (params : DccsParameters) : rounds params 0 = [] := rfl

@[simp] theorem rounds_one (params : DccsParameters) :
    rounds params 1 = blocks params params.count := by simp [rounds]

theorem rounds_add (params : DccsParameters) (n k : Nat) :
    rounds params (n + k) = rounds params n ++ rounds params k := by
  rw [rounds, ← List.replicate_append_replicate, List.flatten_append]
  rfl

theorem mem_rounds {params : DccsParameters} {n : Nat} {place : Place} (h : place ∈ rounds params n) :
    ∃ i < params.count, place = block params i := by
  obtain ⟨bs, hbs, hplace⟩ := List.mem_flatten.1 h
  obtain ⟨-, rfl⟩ := List.mem_replicate.1 hbs
  obtain ⟨i, hi, rfl⟩ := List.mem_map.1 hplace
  exact ⟨i, List.mem_range.1 hi, rfl⟩

section filled
variable (params : DccsParameters) (target : Int) (rank size : Nat)

/-- What the loops of one round have posted for a host, in turn `n` of the outer and `h` of the
inner one. -/
def filled (n h host : Nat) : List Place :=
  if ¬ skips target rank host ∧ host < size then blocks params (if host < h then n + 1 else n) else []

variable {params target rank size}

theorem filled_zero (host : Nat) : filled params target rank size 0 0 host = [] := by
  simp [filled, blocks]

theorem filled_skip {h : Nat} (hskip : skips target rank h) (n host : Nat) :
    filled params target rank size n (h + 1) host = filled params target rank size n h host := by
  unfold filled
  by_cases heq : host = h
  · subst heq
    simp [hskip]
  · have hlt : host < h + 1 ↔ host < h := by omega
    simp only [hlt]

theorem filled_post {h : Nat} (hskip : ¬ skips target rank h) (hsize : h < size) (n host : Nat) :
    filled params target rank size n (h + 1) host =
      if host = h then filled params target rank size n h host ++
      [block params n] else filled params target rank size n h host := by
  unfold filled
  by_cases heq : host = h
  · subst heq
    simp [hskip, hsize, blocks_succ]
  · have hlt : host < h + 1 ↔ host < h := by omega
    simp only [if_neg heq, hlt]

theorem filled_next (n host : Nat) :
    filled params target rank size n size host = filled params target rank size (n + 1) 0 host := by
  unfold filled
  by_cases hhost : host < size
  · simp [hhost]
  · simp [hhost]

end filled

/-- How many hosts below `h` are not skipped. -/
def hosts (target : Int) (rank h : Nat) : Nat :=
  ((List.range h).filter fun host => ¬ skips target rank host).length

theorem hosts_succ (target : Int) (rank h : Nat) :
    hosts target rank (h + 1) = hosts target rank h + if skips target rank h then 0 else 1 := by
  by_cases hskip : skips target rank h
  · simp [hosts, List.range_succ, List.filter_append, hskip]
  · simp [hosts, List.range_succ, List.filter_append, hskip]

theorem hosts_mono (target : Int) (rank : Nat) {h h' : Nat} (hle : h ≤ h') :
    hosts target rank h ≤ hosts target rank h' := by
  induction h', hle using Nat.le_induction with
  | base => exact Nat.le_refl _
  | succ h' _ ih =>
    rw [hosts_succ]
    omega

theorem hosts_all (rank : Nat) : ∀ h, hosts hostAll rank h = h
  | 0 => rfl
  | h + 1 => by
    have hskip : ¬ skips hostAll rank h := by simp [skips, hostAll, hostNoself]
    rw [hosts_succ, hosts_all rank h, if_neg hskip]

theorem hosts_noself (rank : Nat) : ∀ h, hosts hostNoself rank h = if rank < h then h - 1 else h
  | 0 => rfl
  | h + 1 => by
    simp only [hosts_succ, hosts_noself rank h, skips_noself]
    split_ifs <;> omega

/-- One host only. -/
theorem hosts_one {target : Int} (h0 : 0 ≤ target) (rank : Nat) :
    ∀ h : Nat, hosts target rank h = if target < h then 1 else 0
  | 0 => by
    have hlt : ¬ target < 0 := by omega
    simp [hosts, hlt]
  | h + 1 => by
    have hall : target ≠ hostAll := by unfold hostAll; omega
    have hnoself : target ≠ hostNoself := by unfold hostNoself; omega
    have hskip : skips target rank h ↔ (h : Int) ≠ target := by simp [skips, hall, hnoself]
    simp only [hosts_succ, hosts_one h0 rank h, hskip]
    split_ifs <;> omega

/-- `requests` has room for exactly the requests of one turn. -/
theorem hosts_size {target : Int} {rank size : Nat} (hvalid : ¬ invalid target size)
    (hrank : rank < size) :
    hosts target rank size = requestCount target size := by
  unfold requestCount
  by_cases hall : target = hostAll
  · rw [if_pos hall, hall, hosts_all]
  · by_cases hnoself : target = hostNoself
    · rw [if_neg hall, if_pos hnoself, hnoself, hosts_noself, if_pos hrank]
    · have h0 : 0 ≤ target := by
        by_contra h
        exact hvalid ⟨hall, hnoself, .inl (by omega)⟩
      have hlt : target < size := by
        by_contra h
        exact hvalid ⟨hall, hnoself, .inr (by omega)⟩
      rw [if_neg hall, if_neg hnoself, hosts_one h0, if_pos hlt]

/-- The requests before that of block `n` for `host`. -/
def sentBefore (target : Int) (rank size n host : Nat) : Nat :=
  n * hosts target rank size + hosts target rank host

theorem sentBefore_post {target : Int} {rank host : Nat} (hs : ¬ skips target rank host)
    (size n : Nat) :
    sentBefore target rank size n (host + 1) = sentBefore target rank size n host + 1 := by
  rw [sentBefore, hosts_succ, if_neg hs, sentBefore, Nat.add_assoc]

theorem sentBefore_skip {target : Int} {rank host : Nat} (hs : skips target rank host)
    (size n : Nat) :
    sentBefore target rank size n (host + 1) = sentBefore target rank size n host := by
  rw [sentBefore, hosts_succ, if_pos hs, sentBefore, Nat.add_zero]

theorem sentBefore_next (target : Int) (rank size n : Nat) :
    sentBefore target rank size n size = sentBefore target rank size (n + 1) 0 := by
  rw [sentBefore, sentBefore, Nat.succ_mul]
  rfl

theorem sentBefore_all {target : Int} {rank size : Nat} (hvalid : ¬ invalid target size)
    (hrank : rank < size) (count : Nat) :
    sentBefore target rank size count 0 = requestCount target size * count := by
  rw [sentBefore, hosts_size hvalid hrank, Nat.mul_comm]
  rfl

/-- `requests` has room for the request of a host that is not skipped. -/
theorem sentBefore_lt {target : Int} {rank size n host count : Nat} (hvalid : ¬ invalid target size)
    (hrank : rank < size) (hn : n < count) (hhost : host < size) (hs : ¬ skips target rank host) :
    sentBefore target rank size n host < requestCount target size * count := by
  have hmono := hosts_mono target rank (show host + 1 ≤ size from hhost)
  rw [hosts_succ, if_neg hs] at hmono
  calc sentBefore target rank size n host
      < n * hosts target rank size + hosts target rank size := Nat.add_lt_add_left hmono _
    _ = (n + 1) * hosts target rank size := (Nat.succ_mul _ _).symm
    _ ≤ count * hosts target rank size := Nat.mul_le_mul_right _ hn
    _ = requestCount target size * count := by rw [hosts_size hvalid hrank, Nat.mul_comm]

/-- Whoever sends or receives has at most one request for every other rank and block. -/
theorem requestCount_le {rank size : Nat} (hrank : rank < size) (direction : Direction) :
    ((targets rank direction).shouldSend = true →
      requestCount (targets rank direction).sendTarget size ≤ size - 1) ∧
    ((targets rank direction).shouldRecv = true →
      requestCount (targets rank direction).recvSource size ≤ size - 1) := by
  cases direction with
  | dirOut =>
    refine ⟨fun _ => Nat.le_refl _, fun hr => ?_⟩
    have h0 : rank ≠ 0 := by simpa [targets] using hr
    show 1 ≤ size - 1
    omega
  | dirIn =>
    refine ⟨fun hs => ?_, fun _ => Nat.le_refl _⟩
    have h0 : rank ≠ 0 := by simpa [targets] using hs
    show 1 ≤ size - 1
    omega
  | dirBoth => exact ⟨fun _ => Nat.le_refl _, fun _ => Nat.le_refl _⟩

end RdmaOpera.MpiExec
