import RdmaOpera.ResultScript

/-!
# The checksum cross-check

The client's digests are read behind their tags, the server's are not: its loop never calls
`strip_tag` (`process_rdma_result.py:74-85`), and `^SHA1 sum:` matches no line that begins with a
tag.
-/

namespace RdmaOpera.Logs

open Lib

/-- What a log of `rdma_exec` consists of, besides the lengths the run script writes. -/
inductive Entry where
  | size (n : Nat)
  | sha1sum (count length : Nat) (digest : List UInt8)
  | message (level : Level) (text : Line)
  | blank

def Entry.line : Entry → Line
  | .size n => lengthLine n
  | .sha1sum count length digest => sha1sumLine count length digest
  | .message level text => vlogLevel level text
  | .blank => ⟨[], List.not_mem_nil⟩

def logText (log : List Entry) : List Char := unlines (log.map Entry.line)

/-- The digests printed, each with its length. -/
def digestsOf (log : List Entry) : List (Nat × List UInt8) := log.filterMap fun
  | .sha1sum _ length digest => some (length, digest)
  | _ => none

/-- The last digest the client prints for this length is not one the server prints for it. -/
def Mismatch (client server : List Entry) (length : Nat) : Prop :=
  ∃ expected digest, (digestsOf client).reverse.lookup length = some expected ∧
    (length, digest) ∈ digestsOf server ∧
    expected ≠ digest

/-- A mismatch is reported, and nothing is if there is none. -/
def CrossChecked {F : Type} (float : List Char → Option F) (truncate : F → Int) (mode : Mode)
    (client server : List Entry) : Prop :=
  let reports := (processRdmaResult float truncate mode (logText client) (logText server)).1
  (∀ length, Mismatch client server length → length ∈ reports) ∧
    ((∀ length, ¬ Mismatch client server length) → reports = [])

/-! ## The server's log -/

theorem lines_logText (log : List Entry) : lines (logText log) = log.map fun e => e.line.ended := by
  rw [logText, lines_unlines, List.map_map]
  rfl

/-- Every line begins with a tag or a length, if with anything. -/
theorem head_line (e : Entry) : e.line.ended.head? ≠ some 'S' := by
  cases e with
  | size n => exact (by decide : some 'L' ≠ some 'S')
  | sha1sum count length digest => exact (by decide : some '[' ≠ some 'S')
  | message level text => cases level <;> exact (by decide : some '[' ≠ some 'S')
  | blank => exact (by decide : some '\n' ≠ some 'S')

theorem sha1sum_of_head {s : List Char} (h : s.head? ≠ some 'S') :
    sha1sumPattern.groups? s = none := by
  cases s with
  | nil => rfl
  | cons c s =>
    have hc : (c == 'S') = false := by simpa using h
    have hmatch : sha1sumPattern.match? (c :: s) = none := Pattern.match?_ne hc
    rw [Pattern.groups?, hmatch, Option.map_none]

theorem serverLoop_none (checksum : List (Nat × List Char)) :
    ∀ ls : List (List Char), (∀ l ∈ ls, sha1sumPattern.groups? l = none) →
      serverLoop checksum ls = ([], none)
  | [], _ => rfl
  | l :: ls, h => by
    have ih := serverLoop_none checksum ls fun l hl => h l (List.mem_cons_of_mem _ hl)
    rw [serverLoop, h l List.mem_cons_self]
    split
    · exact ih
    · exact ih

section script
variable {F : Type} (float : List Char → Option F) (truncate : F → Int) (mode : Mode)

/-- Whatever the two logs say, nothing is reported. -/
theorem processRdmaResult_reports (clientLog : List Char) (server : List Entry) :
    (processRdmaResult float truncate mode clientLog (logText server)).1 = [] := by
  unfold processRdmaResult
  split
  · rfl
  · rw [serverLoop_none]
    intro l hl
    rw [lines_logText] at hl
    obtain ⟨e, -, rfl⟩ := List.mem_map.1 hl
    exact sha1sum_of_head (head_line e)

/-- **The cross-check** is right about the logs that have nothing to report, and about no others. -/
theorem crossChecked_iff (client server : List Entry) :
    CrossChecked float truncate mode client server ↔ ∀ length, ¬ Mismatch client server length := by
  simp only [CrossChecked, processRdmaResult_reports]
  constructor
  · intro h length hm
    exact absurd (h.1 length hm) List.not_mem_nil
  · intro h
    exact ⟨fun length hm => absurd hm (h length), fun _ => trivial⟩

end script

/-- What SHA-1 gives for 23 zero bytes, and for 23 bytes that are all one. -/
def digestOfZeros : List UInt8 :=
  [0xb9, 0x22, 0x91, 0xc9, 0x8c, 0xcd, 0xff, 0x52, 0xda, 0x0c, 0xa0, 0x35, 0xf2, 0x08, 0x6e, 0x45,
    0xf6, 0x49, 0x85, 0xb9]

def digestOfOnes : List UInt8 :=
  [0x28, 0x08, 0xbf, 0xfc, 0x45, 0x3f, 0x3f, 0xef, 0x13, 0x37, 0xf4, 0xf3, 0x23, 0xfb, 0xf0, 0xce,
    0x28, 0xe6, 0x6a, 0x23]

/-- Length 23: the client prints one digest, the server another, and the script is silent. -/
theorem crossChecked_counterexample :
    ¬ CrossChecked readThousandths (fun n => (n : Int)) .throughput
      [.size 23, .sha1sum 1 23 digestOfZeros] [.size 23, .sha1sum 1 23 digestOfOnes] := by
  intro h
  have hm : Mismatch [.size 23, .sha1sum 1 23 digestOfZeros]
      [.size 23, .sha1sum 1 23 digestOfOnes] 23 :=
    ⟨digestOfZeros, digestOfOnes, rfl, List.mem_cons_self, by decide⟩
  have hreport := h.1 23 hm
  rw [processRdmaResult_reports] at hreport
  cases hreport

end RdmaOpera.Logs
