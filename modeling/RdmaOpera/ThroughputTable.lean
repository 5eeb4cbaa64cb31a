import RdmaOpera.ResultScript

/-!
# The throughput table

| here | there |
| --- | --- |
| `Record`, `Record.lines`     | the log of a client: `echo` of the run scripts, and what `rdma_exec` writes |
| `printedRates`               | the finite rates of a log, each with the length it is printed for |
| `tabulated`                  | what the script has read of a log (`process_rdma_result.py:40-71`) |

The loop over the client's log strips the tag of every line, so the reports of throughput and the
digests are recognised whatever colour their tags have. A rate that is no number (`inf`, `-nan`)
is not: the table keeps what it had for that length.
-/

namespace RdmaOpera.Logs

open Lib Pattern

/-! ## The log -/

/-- Stripped of its tag, none of the three patterns takes it. -/
structure Skipped (line : List Char) : Prop where
  noLength : lengthPattern.groups? (stripTag line) = none
  noRate : transferredPattern.groups? (stripTag line) = none
  noDigest : sha1sumPattern.groups? (stripTag line) = none

/-- Any other message. -/
structure Aside where
  level : Level
  text : Line
  skipped : Skipped (vlogLevel level text).ended

inductive Record where
  | size (n : Nat)
  | throughput (row : ThroughputRow)
  | sha1sum (count length : Nat) (digest : List UInt8) (nonempty : digest ≠ [])
  | aside (x : Aside)
  | blank

def Record.lines : Record → List Line
  | .size n => [lengthLine n]
  | .throughput row => printThroughputReport row
  | .sha1sum count length digest _ => [sha1sumLine count length digest]
  | .aside x => [vlogLevel x.level x.text]
  | .blank => [blankLine]

def recordsText (log : List Record) : List Char := unlines (log.flatMap Record.lines)

/-- The finite rates, in thousandths; `blockSize` is the length the log begins with. -/
def printedRates : Nat → List Record → List (Nat × Nat)
  | _, [] => []
  | _, .size n :: log => printedRates n log
  | blockSize, .throughput row :: log => match row.throughputGbits with
    | .finite n => (blockSize, n) :: printedRates blockSize log
    | _ => printedRates blockSize log
  | blockSize, _ :: log => printedRates blockSize log

def printedDigests (log : List Record) : List (Nat × List UInt8) := log.filterMap fun
  | .sha1sum _ length digest _ => some (length, digest)
  | _ => none

/-! ## Numerals -/

theorem digit_num (n : Nat) : ∀ c ∈ (Line.num n).chars, digit c = true :=
  fun _ hc => isDigit_of_mem_toString hc

theorem length_num_pos (n : Nat) : 1 ≤ (Line.num n).chars.length := by
  refine List.length_pos_iff.2 fun hnil => ?_
  have hrepr : (Nat.repr n).toList = [] := hnil
  rw [Nat.toList_repr] at hrepr
  exact Nat.toDigits_ne_nil hrepr

theorem int_num (n : Nat) : int (Line.num n).chars = n := by
  show Nat.ofDigitChars 10 (Nat.repr n).toList 0 = n
  rw [Nat.toList_repr, Nat.ofDigitChars_ten_toDigits]

/-- Digits, a point, and digits. -/
def IsDecimal (x : List Char) : Prop :=
  ∃ whole part, x = whole ++ '.' :: part ∧ (∀ c ∈ whole, digit c = true) ∧
    (∀ c ∈ part, digit c = true) ∧ 1 ≤ whole.length ∧ 1 ≤ part.length

theorem isDecimal_fixed3 (n : Nat) : IsDecimal (fixed3 n).chars := by
  refine ⟨(Line.num (n / 1000)).chars,
    (Line.num (n / 100 % 10) ++ Line.num (n / 10 % 10) ++ Line.num (n % 10)).chars, ?_, digit_num _,
    fun c hc => ?_, length_num_pos _, ?_⟩
  · simp [fixed3]
  · simp only [Line.chars_append, List.mem_append] at hc
    rcases hc with (hc | hc) | hc <;> exact digit_num _ c hc
  · have := length_num_pos (n / 100 % 10)
    rw [Line.chars_append, Line.chars_append, List.length_append, List.length_append]
    omega

/-! ## Patterns -/

section patterns
variable {r : Pattern} {opened : List Char} {groups : List (List Char)} {a s : List Char}

/-- `(\d+)` -/
theorem exec_number (ha : ∀ c ∈ a, digit c = true) (hpos : 1 ≤ a.length) (hs : Stops digit s)
    (hr : Refuses r digit) :
    exec (number ++ r) opened groups (a ++ s) = exec r (a ++ s) (groups ++ [a]) s := by
  show exec (.many digit 1 :: .cls :: r) (a ++ s) groups (a ++ s) = _
  rw [exec_many ha hs hr.cls, if_pos hpos, exec_cls]

theorem refuses_point : Refuses (.one (· == '.') :: r) digit := by
  refine refuses_one fun c hc => ?_
  simp only [beq_eq_false_iff_ne]
  rintro rfl
  exact absurd hc (by decide)

/-- `(\d+\.\d+)` -/
theorem exec_decimal (ha : IsDecimal a) (hs : Stops digit s) (hr : Refuses r digit) :
    exec (decimal ++ r) opened groups (a ++ s) = exec r (a ++ s) (groups ++ [a]) s := by
  obtain ⟨whole, part, hsplit, hwhole, hpart, hpos, hpos'⟩ := ha
  have hjoin : whole ++ '.' :: (part ++ s) = a ++ s := by simp [hsplit]
  show exec (.many digit 1 :: .one (· == '.') :: .many digit 1 :: .cls :: r) (a ++ s) groups (a ++ s) = _
  conv_lhs => rw [← hjoin]
  rw [exec_many hwhole (stops_cons (by decide)) refuses_point, if_pos hpos, exec_one (by decide),
    exec_many hpart hs hr.cls, if_pos hpos', hjoin, exec_cls]

/-- It takes nothing that does not begin with a digit. -/
theorem exec_decimal_none (hs : Stops digit s) : exec (decimal ++ r) opened groups s = none := by
  have hmany : exec (.many digit 1 :: .one (· == '.') :: .many digit 1 :: .cls :: r) s groups ([] ++ s) =
      none := exec_many (by simp) hs refuses_point
  exact hmany

end patterns

/-! ## The lines of a report -/

/-- The tag goes, and the blanks behind it. -/
theorem stripTag_vlogLevel (level : Level) {text : Line} (hbracket : ']' ∉ text.chars)
    (hblank : Stops (· == ' ') text.ended) : stripTag (vlogLevel level text).ended = text.ended := by
  have htag : ∃ tag blanks : List Char, tag.all dot = true ∧ blanks.all (· == ' ') = true ∧
      (vlogLevel level text).ended = '[' :: (tag ++ ']' :: (blanks ++ text.ended)) := by
    cases level with
    | verbose => exact ⟨"\x1B[34mverbose\x1B[0m".toList, [' '], rfl, rfl, rfl⟩
    | info => exact ⟨"\x1B[36minfo\x1B[0m".toList, [' ', ' '], rfl, rfl, rfl⟩
    | debug => exact ⟨"\x1B[35mdebug\x1B[0m".toList, [' '], rfl, rfl, rfl⟩
    | warning => exact ⟨"\x1B[33mwarn\x1B[0m".toList, [' ', ' '], rfl, rfl, rfl⟩
    | error => exact ⟨"\x1B[31merror\x1B[0m".toList, [' '], rfl, rfl, rfl⟩
  obtain ⟨tag, blanks, hdot, hblanks, hline⟩ := htag
  rw [List.all_eq_true] at hdot hblanks
  have hlast : ∀ c ∈ blanks ++ text.ended, (c == ']') = false := by
    intro c hc
    simp only [beq_eq_false_iff_ne]
    rintro rfl
    rcases List.mem_append.1 hc with hc | hc
    · exact absurd (hblanks _ hc) (by decide)
    · rcases List.mem_append.1 hc with hc | hc
      · exact hbracket hc
      · exact absurd (List.mem_singleton.1 hc) (by decide)
  have hmatch : tagPattern.match? (vlogLevel level text).ended = some ([], text.ended) := by
    rw [hline, match?, tagPattern, exec_one (by decide)]
    exact exec_many_one hdot (Nat.zero_le _) (by decide) hlast
      (exec_many_some hblanks hblank (Nat.zero_le _) rfl)
  rw [stripTag, hmatch]

/-- A line without a tag stays as it is. -/
theorem stripTag_of_ne {c : Char} {line : List Char} (hc : (c == '[') = false) :
    stripTag (c :: line) = c :: line := by
  have hmatch : tagPattern.match? (c :: line) = none := match?_ne hc
  rw [stripTag, hmatch]

/-- What stands between the mantissa and the unit: the exponent, with its sign. -/
def exponentChars (x : Scientific) : List Char :=
  (if x.negative then '-' else '+') :: x.digits.chars

theorem digits_exponent (x : Scientific) :
    (∀ c ∈ x.digits.chars, digit c = true) ∧ 1 ≤ x.digits.chars.length := by
  unfold Scientific.digits
  split
  · refine ⟨fun c hc => ?_, by simp⟩
    rcases List.mem_append.1 hc with hc | hc
    · rw [List.mem_singleton.1 (show c ∈ ['0'] from hc)]
      decide
    · exact digit_num _ c hc
  · exact ⟨digit_num _, length_num_pos _⟩

/-- `([+-]\d+)` -/
theorem exec_exponent (x : Scientific) {r : Pattern} {opened : List Char} {groups : List (List Char)}
    {s : List Char} (hs : Stops digit s) (hr : Refuses r digit) :
    exec (.opn :: .one (fun c => c == '+' || c == '-') :: .many digit 1 :: .cls :: r) opened groups
      (exponentChars x ++ s) = exec r (exponentChars x ++ s) (groups ++ [exponentChars x]) s := by
  have hsign : ∀ b : Bool, ((if b then '-' else '+') == '+' || (if b then '-' else '+') == '-') = true := by
    decide
  obtain ⟨hdigits, hpos⟩ := digits_exponent x
  rw [exec_opn, exponentChars, List.cons_append, exec_one (hsign _), exec_many hdigits hs hr.cls,
    if_pos hpos, ← List.cons_append, exec_cls]

/-- **A report of throughput**: the four groups if the rate is a number, and no match otherwise. -/
theorem groups_transferred (row : ThroughputRow) :
    transferredPattern.groups? row.text.ended = match row.throughputGbits with
      | .finite n => some [(Line.num row.transferedBytes).chars, (fixed3 row.elapsedSeconds.mantissa).chars,
          exponentChars row.elapsedSeconds, (fixed3 n).chars]
      | _ => none := by
  have hpattern : transferredPattern = lit "Transferred: " ++ (number ++ (lit " B, elapsed: " ++
      (decimal ++ (lit "e" ++ (.opn :: .one (fun c => c == '+' || c == '-') :: .many digit 1 :: .cls ::
        (lit " s, throughput: " ++ (decimal ++ (lit " Gbps" ++ [.one dot])))))))) := rfl
  have htext : row.text.ended = "Transferred: ".toList ++ ((Line.num row.transferedBytes).chars ++
      (" B, elapsed: ".toList ++ ((fixed3 row.elapsedSeconds.mantissa).chars ++ ("e".toList ++
        (exponentChars row.elapsedSeconds ++ (" s, throughput: ".toList ++
          (row.throughputGbits.line.chars ++ (" Gbps".toList ++ ['.', '\n'])))))))) := by
    have hsign : ∀ b : Bool, (if b then Line.lit "-" else Line.lit "+").chars = [if b then '-' else '+'] := by
      decide
    have hgbps : " Gbps.".toList = " Gbps".toList ++ ['.'] := by decide
    simp [ThroughputRow.text, Line.ended, Scientific.line, exponentChars, hsign, hgbps]
  rw [groups?, match?, htext, hpattern, exec_lit,
    exec_number (digit_num _) (length_num_pos _) (stops_lit rfl (by decide)) (refuses_lit rfl (by decide)),
    exec_lit, exec_decimal (isDecimal_fixed3 _) (stops_lit rfl (by decide)) (refuses_lit rfl (by decide)),
    exec_lit, exec_exponent _ (stops_lit rfl (by decide)) (refuses_lit rfl (by decide)), exec_lit]
  cases row.throughputGbits with
  | finite n =>
    have hrate : (Rate.finite n).line.chars = (fixed3 n).chars := rfl
    rw [hrate, exec_decimal (isDecimal_fixed3 _) (stops_lit rfl (by decide))
      (refuses_lit rfl (by decide)), exec_lit]
    rfl
  | inf =>
    have hrate : Rate.inf.line.chars = "inf".toList := rfl
    rw [hrate, exec_decimal_none (stops_lit rfl (by decide))]
    rfl
  | nan =>
    have hrate : Rate.nan.line.chars = "-nan".toList := rfl
    rw [hrate, exec_decimal_none (stops_lit rfl (by decide))]
    rfl

theorem groups_length (n : Nat) : lengthPattern.groups? (lengthLine n).ended = some [(Line.num n).chars] := by
  have htext : (lengthLine n).ended =
      "Length = ".toList ++ ((Line.num n).chars ++ (" ...".toList ++ ['\n'])) := by
    simp [lengthLine, Line.ended]
  have hnumber : ∀ opened, exec number opened [] ((Line.num n).chars ++ (" ...".toList ++ ['\n'])) =
      some ([(Line.num n).chars], " ...".toList ++ ['\n']) := by
    intro opened
    show exec (.many digit 1 :: [.cls]) _ [] _ = _
    refine exec_many_some (digit_num n) (stops_lit rfl (by decide)) (length_num_pos n) ?_
    rw [exec_cls]
    rfl
  rw [groups?, match?, htext, lengthPattern, exec_lit, hnumber]
  rfl

/-- A digest in hexadecimal. -/
theorem word_hex : ∀ digest : List UInt8, ∀ c ∈ (binToHexString digest).chars, word c = true
  | [], _, hc => nomatch hc
  | b :: digest, c, hc => by
    have hdigit : ∀ d : Fin 16, word (Nat.digitChar d) = true := by decide
    have hsplit : (binToHexString (b :: digest)).chars = Nat.digitChar (Fin.ofNat 16 (b.toNat / 16)) ::
      Nat.digitChar (Fin.ofNat 16 b.toNat) :: (binToHexString digest).chars := rfl
    rw [hsplit] at hc
    rcases List.mem_cons.1 hc with rfl | hc
    · exact hdigit _
    · rcases List.mem_cons.1 hc with rfl | hc
      · exact hdigit _
      · exact word_hex digest c hc

theorem length_hex_pos {digest : List UInt8} (h : digest ≠ []) :
    1 ≤ (binToHexString digest).chars.length := by
  cases digest with
  | nil => exact absurd rfl h
  | cons b digest => exact Nat.succ_le_succ (Nat.zero_le _)

/-- **A digest**: the three groups. -/
theorem groups_sha1sum (count length : Nat) {digest : List UInt8} (h : digest ≠ []) :
    sha1sumPattern.groups? (sha1sumText count length digest).ended =
      some [(Line.num count).chars, (Line.num length).chars, (binToHexString digest).chars] := by
  have hpattern : sha1sumPattern = lit "SHA1 sum: count = " ++ (number ++ (lit ", length = " ++
      (number ++ (lit ", digest = " ++ [.opn, .many word 1, .cls, .one dot, .eol])))) := rfl
  have htext : (sha1sumText count length digest).ended = "SHA1 sum: count = ".toList ++
      ((Line.num count).chars ++ (", length = ".toList ++ ((Line.num length).chars ++
        (", digest = ".toList ++ ((binToHexString digest).chars ++ ['.', '\n']))))) := by
    have hpoint : ".".toList = ['.'] := by decide
    simp [sha1sumText, Line.ended, hpoint]
  -- the point is no word character, and stands before the end of the line
  have hdigest : ∀ opened groups, exec [.opn, .many word 1, .cls, .one dot, .eol] opened groups
      ((binToHexString digest).chars ++ ['.', '\n']) =
        some (groups ++ [(binToHexString digest).chars], ['\n']) := by
    intro opened groups
    rw [exec_opn]
    refine exec_many_some (word_hex digest) (stops_cons (by decide)) (length_hex_pos h) ?_
    rw [exec_cls]
    rfl
  rw [groups?, match?, htext, hpattern, exec_lit,
    exec_number (digit_num _) (length_num_pos _) (stops_lit rfl (by decide)) (refuses_lit rfl (by decide)),
    exec_lit,
    exec_number (digit_num _) (length_num_pos _) (stops_lit rfl (by decide)) (refuses_lit rfl (by decide)),
    exec_lit, hdigest]
  rfl

/-! ## The loop over the client's log -/

section script
variable {F : Type} (float : List Char → Option F) (truncate : F → Int) (value : Nat → F)

/-- What the script has read of a record. -/
def tabulated (s : ClientState F) : Record → ClientState F
  | .size n => { s with blockSize := n }
  | .throughput row => match row.throughputGbits with
    | .finite n => { s with throughputs := dictSet s.throughputs s.blockSize (value n) }
    | _ => s
  | .sha1sum _ length digest _ => { s with checksum := dictSet s.checksum length (binToHexString digest).chars }
  | .aside _ | .blank => s

theorem clientLine_eq {line : List Char} (h : lengthPattern.groups? (stripTag line) = none)
    (s : ClientState F) : clientLine float truncate .throughput s line =
      (throughputLine float s (stripTag line)).map fun s => checksumLine s (stripTag line) := by
  have hmode : ¬ ((Mode.throughput = .latency) ∧ scriptHeader <:+: stripTag line) := fun h => nomatch h.1
  unfold clientLine
  dsimp only
  rw [h]
  dsimp only
  rw [if_neg hmode, if_neg (by decide)]
  cases throughputLine float s (stripTag line) <;> rfl

theorem clientLine_skipped {line : List Char} (h : Skipped line) (s : ClientState F) :
    clientLine float truncate .throughput s line = .ok s := by
  have hrate : throughputLine float s (stripTag line) = .ok s := by
    unfold throughputLine
    rw [h.noRate]
  have hdigest : checksumLine s (stripTag line) = s := by
    unfold checksumLine
    rw [h.noDigest]
  rw [clientLine_eq float truncate h.noLength, hrate, Except.map, hdigest]

theorem clientLine_length (n : Nat) (s : ClientState F) :
    clientLine float truncate .throughput s (lengthLine n).ended = .ok { s with blockSize := n } := by
  have hstrip : stripTag (lengthLine n).ended = (lengthLine n).ended := stripTag_of_ne (by decide)
  unfold clientLine
  dsimp only
  rw [hstrip, groups_length]
  dsimp only
  rw [int_num]

theorem notMem_fixed3 {c : Char} (hc : c.isDigit = false) (hpoint : c ≠ '.') (n : Nat) :
    c ∉ (fixed3 n).chars := by
  have hnum : ∀ n, c ∉ (Line.num n).chars := fun n => notMem_toString hc n
  have hlit : c ∉ (Line.lit ".").chars := by
    rw [show (Line.lit ".").chars = ['.'] from rfl, List.mem_singleton]
    exact hpoint
  simp only [fixed3, Line.chars_append, List.mem_append, not_or]
  exact ⟨⟨⟨⟨hnum _, hlit⟩, hnum _⟩, hnum _⟩, hnum _⟩

/-- A report stripped of its tag. -/
theorem stripTag_transferred (row : ThroughputRow) :
    stripTag (vlogLevel .info row.text).ended = row.text.ended := by
  have hnum : ∀ n, ']' ∉ (Line.num n).chars := fun n => notMem_toString (by decide) n
  have hfixed : ∀ n, ']' ∉ (fixed3 n).chars := notMem_fixed3 (by decide) (by decide)
  have hsign : ∀ b : Bool, ']' ∉ (if b then Line.lit "-" else Line.lit "+").chars := by decide
  have hdigits : ']' ∉ row.elapsedSeconds.digits.chars :=
    fun hm => absurd ((digits_exponent row.elapsedSeconds).1 _ hm) (by decide)
  have hrate : ']' ∉ row.throughputGbits.line.chars := by
    cases row.throughputGbits with
    | finite n => exact hfixed n
    | inf => decide
    | nan => decide
  have hlit : ∀ t ∈ ["Transferred: ", " B, elapsed: ", "e", " s, throughput: ", " Gbps."],
      ']' ∉ t.toList := by decide
  refine stripTag_vlogLevel .info ?_ (stops_cons (by decide))
  simp only [ThroughputRow.text, Scientific.line, Line.chars_append, List.mem_append, not_or,
    Line.chars_lit]
  exact ⟨⟨⟨⟨⟨⟨hlit _ (by decide), hnum _⟩, hlit _ (by decide)⟩,
    ⟨⟨hfixed _, hlit _ (by decide)⟩, hsign _⟩, hdigits⟩, hlit _ (by decide)⟩, hrate⟩, hlit _ (by decide)⟩

theorem stripTag_sha1sum (count length : Nat) (digest : List UInt8) :
    stripTag (sha1sumLine count length digest).ended = (sha1sumText count length digest).ended := by
  have hnum : ∀ n, ']' ∉ (Line.num n).chars := fun n => notMem_toString (by decide) n
  have hhex : ']' ∉ (binToHexString digest).chars := fun hm => absurd (word_hex digest _ hm) (by decide)
  have hlit : ∀ t ∈ ["SHA1 sum: count = ", ", length = ", ", digest = ", "."], ']' ∉ t.toList := by
    decide
  refine stripTag_vlogLevel .info ?_ (stops_cons (by decide))
  simp only [Line.chars_append, List.mem_append, not_or, Line.chars_lit]
  exact ⟨⟨⟨⟨⟨⟨hlit _ (by decide), hnum _⟩, hlit _ (by decide)⟩, hnum _⟩, hlit _ (by decide)⟩, hhex⟩,
    hlit _ (by decide)⟩

theorem clientLine_transferred (row : ThroughputRow)
    (hfloat : ∀ n, row.throughputGbits = .finite n → float (fixed3 n).chars = some (value n))
    (s : ClientState F) : clientLine float truncate .throughput s (vlogLevel .info row.text).ended =
      .ok (tabulated value s (.throughput row)) := by
  have hstrip := stripTag_transferred row
  have hlength : lengthPattern.groups? row.text.ended = none := groups?_ne (by decide)
  have hdigest : ∀ s : ClientState F, checksumLine s row.text.ended = s := by
    intro s
    have hnone : sha1sumPattern.groups? row.text.ended = none := groups?_ne (by decide)
    unfold checksumLine
    rw [hnone]
  have hrate : throughputLine float s row.text.ended = .ok (tabulated value s (.throughput row)) := by
    have hgroups := groups_transferred row
    cases hr : row.throughputGbits with
    | finite n =>
      rw [hr] at hgroups
      simp only [throughputLine, tabulated, hgroups, hr, hfloat n hr]
    | inf | nan =>
      rw [hr] at hgroups
      simp only [throughputLine, tabulated, hgroups, hr]
  rw [clientLine_eq float truncate (hstrip ▸ hlength), hstrip, hrate, Except.map, hdigest]

theorem clientLine_sha1sum (count length : Nat) {digest : List UInt8} (h : digest ≠ [])
    (s : ClientState F) : clientLine float truncate .throughput s (sha1sumLine count length digest).ended =
      .ok (tabulated value s (.sha1sum count length digest h)) := by
  have hstrip := stripTag_sha1sum count length digest
  have hlength : lengthPattern.groups? (sha1sumText count length digest).ended = none :=
    groups?_ne (by decide)
  have hrate : throughputLine float s (sha1sumText count length digest).ended = .ok s := by
    have hnone : transferredPattern.groups? (sha1sumText count length digest).ended = none :=
      groups?_ne (by decide)
    unfold throughputLine
    rw [hnone]
  have hdigest : checksumLine s (sha1sumText count length digest).ended =
      tabulated value s (.sha1sum count length digest h) := by
    unfold checksumLine tabulated
    rw [groups_sha1sum count length h]
    dsimp only
    rw [int_num]
  rw [clientLine_eq float truncate (hstrip ▸ hlength), hstrip, hrate, Except.map, hdigest]

/-! ## The whole log -/

/-- `float` reads the rates that are numbers. -/
def ReadsRates : List Record → Prop := fun log =>
  ∀ row n, Record.throughput row ∈ log → row.throughputGbits = .finite n →
    float (fixed3 n).chars = some (value n)

theorem skipped_rule : Skipped (vlogLevel .info (.lit "=====================")).ended :=
  ⟨by decide +kernel, by decide +kernel, by decide +kernel⟩

theorem skipped_title : Skipped (vlogLevel .info (.lit "Throughput Report")).ended :=
  ⟨by decide +kernel, by decide +kernel, by decide +kernel⟩

theorem skipped_blank : Skipped blankLine.ended :=
  ⟨by decide +kernel, by decide +kernel, by decide +kernel⟩

/-- What is printed for one record, line by line. -/
theorem foldlM_record {x : Record} (hfloat : ReadsRates float value [x]) (s : ClientState F) :
    (x.lines.map Line.ended).foldlM (clientLine float truncate .throughput) s =
      .ok (tabulated value s x) := by
  have hskip := fun {line : List Char} (h : Skipped line) => clientLine_skipped float truncate h
  cases x with
  | size n =>
    rw [Record.lines, List.map_singleton, List.foldlM_cons, clientLine_length]
    rfl
  | throughput row =>
    have hrow := clientLine_transferred float truncate value row
      (fun n hn => hfloat row n (List.mem_singleton_self _) hn)
    simp only [Record.lines, printThroughputReport, List.map_cons, List.map_nil, List.foldlM_cons,
      List.foldlM_nil, hskip skipped_rule, hskip skipped_title, hskip skipped_blank, hrow]
    rfl
  | sha1sum count length digest nonempty =>
    rw [Record.lines, List.map_singleton, List.foldlM_cons, clientLine_sha1sum float truncate value _ _ nonempty]
    rfl
  | aside x =>
    rw [Record.lines, List.map_singleton, List.foldlM_cons, hskip x.skipped]
    rfl
  | blank =>
    rw [Record.lines, List.map_singleton, List.foldlM_cons, hskip skipped_blank]
    rfl

theorem foldlM_records : ∀ (log : List Record), ReadsRates float value log → ∀ s : ClientState F,
    ((log.flatMap Record.lines).map Line.ended).foldlM (clientLine float truncate .throughput) s =
      .ok (log.foldl (tabulated value) s)
  | [], _, s => rfl
  | x :: log, hfloat, s => by
    have hx : ReadsRates float value [x] := fun row n hmem =>
      hfloat row n (List.mem_singleton.1 hmem ▸ List.mem_cons_self)
    have hlog : ReadsRates float value log := fun row n hmem =>
      hfloat row n (List.mem_cons_of_mem x hmem)
    rw [List.flatMap_cons, List.map_append, List.foldlM_append, foldlM_record float truncate value hx]
    exact foldlM_records log hlog (tabulated value s x)

/-- The last entry for a length. -/
def lastOf {α : Type} (entries : List (Nat × α)) (length : Nat) : Option α :=
  entries.reverse.lookup length

theorem lastOf_cons {α : Type} (e : Nat × α) (entries : List (Nat × α)) (length : Nat) :
    lastOf (e :: entries) length =
      (lastOf entries length).or (if length = e.1 then some e.2 else none) := by
  rw [lastOf, List.reverse_cons, List.lookup_append, List.lookup_cons, List.lookup_nil]
  by_cases h : length = e.1
  · rw [if_pos h, beq_iff_eq.2 h]
    rfl
  · rw [if_neg h, beq_false_of_ne h]
    rfl

/-- The table and the digests after a log. -/
theorem lookup_tabulated : ∀ (log : List Record) (s : ClientState F) (length : Nat),
    (log.foldl (tabulated value) s).throughputs.lookup length =
        ((lastOf (printedRates s.blockSize log) length).map value).or (s.throughputs.lookup length) ∧
      (log.foldl (tabulated value) s).checksum.lookup length =
        ((lastOf (printedDigests log) length).map fun d => (binToHexString d).chars).or
          (s.checksum.lookup length)
  | [], _, _ => ⟨rfl, rfl⟩
  | x :: log, s, length => by
    obtain ⟨hrates, hdigests⟩ := lookup_tabulated log (tabulated value s x) length
    rw [List.foldl_cons, hrates, hdigests]
    cases x with
    | size n => exact ⟨rfl, rfl⟩
    | throughput row =>
      cases hr : row.throughputGbits with
      | finite n =>
        simp only [tabulated, printedRates, hr, lastOf_cons, lookup_dictSet]
        refine ⟨?_, rfl⟩
        cases lastOf (printedRates s.blockSize log) length with
        | some n => rfl
        | none => split <;> rfl
      | inf | nan =>
        have hsame : tabulated value s (.throughput row) = s := by simp only [tabulated, hr]
        have hcons : printedRates s.blockSize (.throughput row :: log) = printedRates s.blockSize log := by
          simp only [printedRates, hr]
        rw [hsame, hcons]
        exact ⟨rfl, rfl⟩
    | sha1sum count n digest nonempty =>
      refine ⟨rfl, ?_⟩
      have hcons : printedDigests (.sha1sum count n digest nonempty :: log) =
        (n, digest) :: printedDigests log := rfl
      rw [hcons, lastOf_cons]
      simp only [tabulated, lookup_dictSet]
      cases lastOf (printedDigests log) length with
      | some d => rfl
      | none => split <;> rfl
    | aside x => exact ⟨rfl, rfl⟩
    | blank => exact ⟨rfl, rfl⟩

/-- **The throughput table.** Whatever else is in the log, the script gets to its end, its table has
for each length the last finite rate printed for it, and its digests are the last ones printed. -/
theorem throughputTable (log : List Record) (hfloat : ReadsRates float value log) :
    ∃ s, clientLoop float truncate .throughput (recordsText log) = .ok s ∧
      ∀ length, s.throughputs.lookup length = (lastOf (printedRates 0 log) length).map value ∧
        s.checksum.lookup length = (lastOf (printedDigests log) length).map fun digest =>
          (binToHexString digest).chars := by
  refine ⟨log.foldl (tabulated value) {}, ?_, fun length => ?_⟩
  · rw [clientLoop, recordsText, lines_unlines]
    exact foldlM_records float truncate value log hfloat {}
  · obtain ⟨hrates, hdigests⟩ := lookup_tabulated value log {} length
    rw [hrates, hdigests]
    exact ⟨Option.or_none, Option.or_none⟩

end script

/-- Two reports for 23 bytes, the first one interrupted by a clock that stood still. -/
def twoReports : List Record :=
  [.size 23, .throughput ⟨2300, ⟨0, false, 0, .inr ⟨rfl, rfl⟩⟩, .inf⟩, .sha1sum 100 23 [0xab] (by decide),
    .size 23, .throughput ⟨2300, ⟨1250, true, 6, .inl ⟨by decide, by decide⟩⟩, .finite 14720⟩]

theorem throughputTable_twoReports :
    ∃ s, clientLoop readThousandths (fun n => (n : Int)) .throughput (recordsText twoReports) = .ok s ∧
      s.throughputs.lookup 23 = some 14720 ∧ s.checksum.lookup 23 = some ['a', 'b'] := by
  have hreads : ReadsRates readThousandths id twoReports := by
    intro row n hmem hn
    simp only [twoReports, List.mem_cons, reduceCtorEq, Record.throughput.injEq, List.not_mem_nil,
      or_false, false_or] at hmem
    rcases hmem with rfl | rfl
    · cases hn
    · cases hn
      decide
  obtain ⟨s, hs, htable⟩ := throughputTable readThousandths (fun n => (n : Int)) id twoReports hreads
  refine ⟨s, hs, (htable 23).1.trans ?_, (htable 23).2.trans ?_⟩
  · decide
  · decide

end RdmaOpera.Logs
