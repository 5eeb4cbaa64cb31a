import RdmaOpera.ResultScript

/-!
# The latency table

`print_latency_report_raw` prints `#bytes, #length, ..` (`dccs_rdma.h:888`), the script waits for
`#bytes, #iterations, ..` (`process_rdma_result.py:48`): it never sees a header, and so no row.
-/

namespace RdmaOpera.Logs

open Lib

/-- Any other message of the program; none of its formats contains the script's header. -/
structure Message where
  level : Level
  text : Line
  fresh : ¬ scriptHeader <:+: (vlogLevel level text).ended

def Message.line (x : Message) : Line := vlogLevel x.level x.text

/-- The log of one length: the run script's line, and the report with whatever else is printed
before and after it. -/
structure Section where
  length : Nat
  before : List Message
  row : LatencyRow
  raw : Option (List Sample)
  finishedCount : Nat
  after : List Message

def Section.lines (x : Section) : List Line :=
  [lengthLine x.length] ++ x.before.map Message.line ++
    printLatencyReportRaw x.length x.row x.raw x.finishedCount ++
    x.after.map Message.line

def sectionsText (sections : List Section) : List Char := unlines (sections.flatMap Section.lines)

section script
variable {F : Type} (float : List Char → Option F) (truncate : F → Int)

/-- One entry for every length, with the numbers printed. -/
def expectedTable (sections : List Section) : Option (List (Nat × List F)) :=
  sections.foldlM (fun table x => do
    let row ← (x.row.fields x.length).mapM fun field => float field.chars
    pure (dictSet table x.length row)) []

/-- The script gets through the log and ends with the expected table. -/
def LatencyTable (sections : List Section) : Prop :=
  ∃ s, clientLoop float truncate .latency (sectionsText sections) = .ok s ∧
    expectedTable float sections = some s.latencies

/-! ## The script's loop -/

theorem stripTag_suffix (line : List Char) : stripTag line <:+ line := by
  unfold stripTag
  split
  · rename_i h
    exact Pattern.suffix_of_exec h
  · exact List.suffix_rfl

/-- A line without the header leaves the table alone. -/
theorem clientLine_keeps {s : ClientState F} (hs : s.latencyHeader = false) {line : List Char}
    (hline : ¬ scriptHeader <:+: line) :
    ∃ s', clientLine float truncate .latency s line = .ok s' ∧ s'.latencyHeader = false ∧
      s'.latencies = s.latencies := by
  have hstrip : ¬ scriptHeader <:+: stripTag line :=
    fun h => hline (h.trans (stripTag_suffix line).isInfix)
  have hlatency : latencyLine float truncate s (stripTag line) = .ok s := by
    rw [latencyLine, hs]
    rfl
  have hchecksum : ∀ l, (checksumLine s l).latencyHeader = false ∧
    (checksumLine s l).latencies = s.latencies := by
    intro l
    unfold checksumLine
    split
    · exact ⟨hs, rfl⟩
    · exact ⟨hs, rfl⟩
  unfold clientLine
  dsimp only
  split
  · exact ⟨_, rfl, hs, rfl⟩
  · rw [if_neg fun h => hstrip h.2, if_pos rfl, hlatency]
    exact ⟨_, rfl, hchecksum _⟩

theorem foldlM_keeps :
    ∀ (ls : List (List Char)) (s : ClientState F), s.latencyHeader = false →
      (∀ l ∈ ls, ¬ scriptHeader <:+: l) →
    ∃ s', ls.foldlM (clientLine float truncate .latency) s = .ok s' ∧ s'.latencies = s.latencies
  | [], s, _, _ => ⟨s, rfl, rfl⟩
  | l :: ls, s, hs, hls => by
    obtain ⟨s₁, hs₁, hheader, hlat⟩ := clientLine_keeps float truncate hs (hls l List.mem_cons_self)
    obtain ⟨s₂, hs₂, hlat₂⟩ := foldlM_keeps ls s₁ hheader fun l hl =>
      hls l (List.mem_cons_of_mem _ hl)
    refine ⟨s₂, ?_, hlat₂.trans hlat⟩
    rw [List.foldlM_cons, hs₁]
    exact hs₂

/-! ## The printer -/

/-- A line that lacks one of the header's characters. -/
theorem fresh_of_notMem {c : Char} (hc : c ∈ scriptHeader) {l : Line} (hn : c ≠ '\n')
    (hl : c ∉ l.chars) : ¬ scriptHeader <:+: l.ended := by
  intro h
  have hm := h.subset hc
  rw [Line.ended, List.mem_append, List.mem_singleton] at hm
  exact hm.elim hl hn

theorem hash_num (n : Nat) : '#' ∉ (Line.num n).chars := notMem_toString (by decide) n

theorem hash_fixed3 (n : Nat) : '#' ∉ (fixed3 n).chars := by
  have hnum : ∀ n, '#' ∉ Nat.toDigits 10 n := notMem_toDigits (by decide)
  simp [fixed3, hnum]

theorem hash_vlogLevel (level : Level) {text : Line} (h : '#' ∉ text.chars) :
    '#' ∉ (vlogLevel level text).chars := by
  cases level <;> simp [vlogLevel, h]

theorem hash_joined {sep : Line} (hsep : '#' ∉ sep.chars) :
    ∀ {ls : List Line}, (∀ l ∈ ls, '#' ∉ l.chars) → '#' ∉ (joined sep ls).chars
  | [], _ => fun h => nomatch h
  | [l], h => h l List.mem_cons_self
  | l :: l' :: ls, h => by
    have ih : '#' ∉ (joined sep (l' :: ls)).chars :=
      hash_joined hsep fun m hm => h m (List.mem_cons_of_mem _ hm)
    rw [joined, Line.chars_append, Line.chars_append, List.mem_append, List.mem_append]
    · exact fun hm => hm.elim (fun hm => hm.elim (h l List.mem_cons_self) hsep) ih
    · simp

/-- The raw latencies have no number sign in them. -/
theorem hash_printRawLatencies (samples : List Sample) :
    ∀ l ∈ printRawLatencies samples, '#' ∉ l.chars := by
  intro l hl
  simp only [printRawLatencies, List.mem_append, List.mem_cons, List.not_mem_nil, or_false,
    List.mem_map] at hl
  rcases hl with ((rfl | rfl) | ⟨x, -, rfl⟩) | rfl
  · exact hash_vlogLevel _ (by decide)
  · exact hash_vlogLevel _ (by decide)
  · exact hash_vlogLevel _ (by simp [Sample.line, hash_fixed3])
  · exact hash_vlogLevel _ (by decide)

theorem hash_row (row : LatencyRow) (length : Nat) :
    '#' ∉ (joined (.lit ", ") (row.fields length)).chars := by
  refine hash_joined (by decide) fun l hl => ?_
  simp only [LatencyRow.fields, List.mem_append, List.mem_cons, List.not_mem_nil, or_false,
    List.mem_map] at hl
  rcases hl with (rfl | rfl) | ⟨n, -, rfl⟩
  · exact hash_num _
  · exact hash_num _
  · exact hash_fixed3 n

/-- No line of a report contains the header the script waits for. -/
theorem fresh_printLatencyReportRaw (length : Nat) (row : LatencyRow) (raw : Option (List Sample))
    (finishedCount : Nat) :
    ∀ l ∈ printLatencyReportRaw length row raw finishedCount, ¬ scriptHeader <:+: l.ended := by
  have hash : ∀ l : Line, '#' ∉ l.chars → ¬ scriptHeader <:+: l.ended :=
    fun l => fresh_of_notMem (by decide) (by decide)
  intro l hl
  simp only [printLatencyReportRaw, List.mem_append, List.mem_cons, List.not_mem_nil,
    or_false] at hl
  rcases hl with ((rfl | rfl) | hraw) | rfl | rfl | rfl | rfl | rfl
  · exact hash _ (hash_vlogLevel _ (by decide))
  · exact hash _ (hash_vlogLevel _ (by decide))
  · cases raw with
    | none => cases hraw
    | some samples => exact hash _ (hash_printRawLatencies samples l hraw)
  · decide +kernel
  · exact hash _ (hash_vlogLevel _ (hash_row row length))
  · -- the one line with a number sign and a number in it
    have hy : 'y' ∉ Nat.toDigits 10 finishedCount := notMem_toDigits (by decide) _
    exact fresh_of_notMem (c := 'y') (by decide) (by decide) (by simp [vlogLevel, hy])
  · exact hash _ (hash_vlogLevel _ (by decide))
  · exact hash _ (by decide)

theorem fresh_section (x : Section) : ∀ l ∈ x.lines, ¬ scriptHeader <:+: l.ended := by
  intro l hl
  simp only [Section.lines, List.mem_append, List.mem_singleton, List.mem_map] at hl
  rcases hl with ((rfl | ⟨m, -, rfl⟩) | hreport) | ⟨m, -, rfl⟩
  · refine fresh_of_notMem (c := '#') (by decide) (by decide) ?_
    have hnum : '#' ∉ Nat.toDigits 10 x.length := notMem_toDigits (by decide) _
    simp [lengthLine, hnum]
  · exact m.fresh
  · exact fresh_printLatencyReportRaw _ _ _ _ l hreport
  · exact m.fresh

/-! ## Together -/

/-- Whatever is printed, the script ends with an empty table. -/
theorem clientLoop_latencies (sections : List Section) :
    ∃ s, clientLoop float truncate .latency (sectionsText sections) = .ok s ∧ s.latencies = [] := by
  refine foldlM_keeps float truncate _ {} rfl fun l hl => ?_
  rw [sectionsText, lines_unlines] at hl
  obtain ⟨line, hline, rfl⟩ := List.mem_map.1 hl
  obtain ⟨x, -, hx⟩ := List.mem_flatMap.1 hline
  exact fresh_section x line hx

/-- A table that something has been put into. -/
theorem expectedTable_ne_nil {x : Section} {sections : List Section} {table : List (Nat × List F)}
    (h : expectedTable float (x :: sections) = some table) : table ≠ [] := by
  have hkeep : ∀ (sections : List Section) (t : List (Nat × List F)), t ≠ [] →
    sections.foldlM (fun table x => do
      let row ← (x.row.fields x.length).mapM fun field => float field.chars
      pure (dictSet table x.length row)) t = some table → table ≠ [] := by
    intro sections
    induction sections with
    | nil =>
      rintro t ht heq
      rwa [← Option.some.inj heq]
    | cons y sections ih =>
      intro t _ heq
      rw [List.foldlM_cons] at heq
      obtain ⟨t', ht', heq⟩ := Option.bind_eq_some_iff.1 heq
      obtain ⟨row, -, hrow⟩ := Option.bind_eq_some_iff.1 ht'
      refine ih t' ?_ heq
      rw [← Option.some.inj hrow]
      exact List.cons_ne_nil _ _
  rw [expectedTable, List.foldlM_cons] at h
  obtain ⟨t, ht, h⟩ := Option.bind_eq_some_iff.1 h
  obtain ⟨row, -, hrow⟩ := Option.bind_eq_some_iff.1 ht
  refine hkeep sections t ?_ h
  rw [← Option.some.inj hrow]
  exact List.cons_ne_nil _ _

/-- **The latency table** is right about a log without a report, and about no other. -/
theorem latencyTable_iff (sections : List Section) :
    LatencyTable float truncate sections ↔ sections = [] := by
  constructor
  · rintro ⟨s, hs, htable⟩
    obtain ⟨s', hs', hlat⟩ := clientLoop_latencies float truncate sections
    rw [hs] at hs'
    cases hs'
    cases sections with
    | nil => rfl
    | cons x sections => exact absurd hlat (expectedTable_ne_nil float htable)
  · rintro rfl
    exact ⟨{}, rfl, rfl⟩

end script

/-- One report, of one sample of a message of two bytes: the table stays empty. -/
theorem latencyTable_counterexample :
    ¬ LatencyTable readThousandths (fun n => (n : Int))
      [⟨2, [], ⟨1, 1500, 1500, 1500, 1500, 0, 1500, 1500⟩, none, 1, []⟩] := by
  rintro ⟨s, hs, htable⟩
  obtain ⟨s', hs', hlat⟩ := clientLoop_latencies readThousandths (fun n => (n : Int))
    [⟨2, [], ⟨1, 1500, 1500, 1500, 1500, 0, 1500, 1500⟩, none, 1, []⟩]
  rw [hs] at hs'
  cases hs'
  exact expectedTable_ne_nil _ htable hlat

end RdmaOpera.Logs
