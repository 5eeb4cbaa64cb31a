import RdmaOpera.Options

/-!
# The numbers of the command line

Seven options take a number, and all of them ask `sscanf` whether it found one. It finds one in
anything that starts with one: `NumeralOnly` is what a check of the whole argument would do.
-/

namespace RdmaOpera

open Lib

/-- The options that take a number. -/
inductive NumberOpt where
  | blockSize | count | repeat_ | warmup | mrCount | index | tos
deriving DecidableEq, Repr

namespace NumberOpt

def opt : NumberOpt → Opt
  | .blockSize => .blockSize
  | .count => .count
  | .repeat_ => .repeat_
  | .warmup => .warmup
  | .mrCount => .mrCount
  | .index => .index
  | .tos => .tos

/-- The width of the field. -/
def bits : NumberOpt → Nat
  | .index => 16
  | .tos => 8
  | _ => 64

def store (o : NumberOpt) (params : DccsParameters) (n : Nat) : DccsParameters := match o with
  | .blockSize => { params with length := n }
  | .count => { params with count := n }
  | .repeat_ => { params with repeat_ := n }
  | .warmup => { params with warmupCount := n }
  | .mrCount => { params with mrCount := n }
  | .index => { params with index := UInt16.ofNat n }
  | .tos => { params with tos := UInt8.ofNat n }

theorem bits_le (o : NumberOpt) : o.bits ≤ 64 := by cases o <;> decide

/-- All seven branches are one. -/
theorem parseOption_eq (o : NumberOpt) (params : DccsParameters) (optarg : String) :
    parseOption params o.opt optarg = (scanNumber o.bits optarg).map (o.store params) := by
  cases o <;> rfl

end NumberOpt

/-- Whatever the parameters are so far: the number is stored if the text is one and fits, and
everything else is an unrecognized value. -/
def NumeralOnly (o : NumberOpt) (optarg : String) : Prop :=
  ∀ params, parseOption params o.opt optarg =
    if Numeral optarg.toList ∧ decimal optarg.toList < 2 ^ o.bits then .ok (o.store params
      (decimal optarg.toList))
    else .error invalid

/-- **Option grammar.** The check is that of the whole argument if there is no number to be found,
or nothing but a number that fits. -/
theorem numeralOnly_iff (o : NumberOpt) (optarg : String) :
    NumeralOnly o optarg ↔
      ¬ StartsNumber optarg.toList ∨ Numeral optarg.toList ∧
      decimal optarg.toList < 2 ^ o.bits := by
  constructor
  · intro h
    by_contra hnot
    obtain ⟨hstarts, hnumeral⟩ := not_or.1 hnot
    -- a number is found, so the option is accepted
    have hsome : (scanUnsigned o.bits optarg.toList).isSome :=
      scanUnsigned_isSome.2 (not_not.1 hstarts)
    obtain ⟨n, hn⟩ := Option.isSome_iff_exists.1 hsome
    have hparse := h defaultParams
    rw [if_neg hnumeral, o.parseOption_eq, scanNumber, hn] at hparse
    cases hparse
  · intro h params
    rw [o.parseOption_eq, scanNumber]
    by_cases hnumeral : Numeral optarg.toList ∧ decimal optarg.toList < 2 ^ o.bits
    · rw [if_pos hnumeral, scanUnsigned_numeral o.bits_le hnumeral.1 hnumeral.2]
      rfl
    · rw [if_neg hnumeral, scanUnsigned_eq_none.2 (h.resolve_right hnumeral)]
      rfl

/-- `-c 12abc` asks for twelve. -/
theorem numeralOnly_counterexample : ¬ NumeralOnly .count "12abc" := by
  intro h
  have hparse := h defaultParams
  rw [if_neg (by decide)] at hparse
  have hscan : scanUnsigned NumberOpt.count.bits "12abc".toList = some 12 := by decide
  rw [NumberOpt.parseOption_eq, scanNumber, hscan] at hparse
  cases hparse

end RdmaOpera
