import RdmaOpera.Options

/-!
# The order of the options

Each option stores to a field of its own (`Setting`), and only after the last one does `parse_args`
look at the fields together.
-/

namespace RdmaOpera

/-- What an option does to the parameters. -/
inductive Setting where
  | length (n : Nat)
  | count (n : Nat)
  | verb (verb : Verb)
  | port (port : String)
  | mode (mode : Mode)
  | repeat_ (n : Nat)
  | warmupCount (n : Nat)
  | mrCount (n : Nat)
  | direction (direction : Direction)
  | index (n : UInt16)
  | tos (n : UInt8)
  | verbose

namespace Setting

/-- The option that makes it. -/
def opt : Setting → Opt
  | .length _ => .blockSize
  | .count _ => .count
  | .verb _ => .verb
  | .port _ => .port
  | .mode _ => .mode
  | .repeat_ _ => .repeat_
  | .warmupCount _ => .warmup
  | .mrCount _ => .mrCount
  | .direction _ => .direction
  | .index _ => .index
  | .tos _ => .tos
  | .verbose => .verbose

def store (s : Setting) (params : DccsParameters) : DccsParameters := match s with
  | .length n => { params with length := n }
  | .count n => { params with count := n }
  | .verb v => { params with verb := v }
  | .port p => { params with port := p }
  | .mode m => { params with mode := m }
  | .repeat_ n => { params with repeat_ := n }
  | .warmupCount n => { params with warmupCount := n }
  | .mrCount n => { params with mrCount := n }
  | .direction d => { params with direction := d }
  | .index n => { params with index := n }
  | .tos n => { params with tos := n }
  | .verbose => { params with verbose := true }

/-- Different options store to different fields. -/
theorem store_comm (params : DccsParameters) {s t : Setting} (h : s.opt ≠ t.opt) :
    t.store (s.store params) = s.store (t.store params) := by
  cases s <;> cases t <;> first | exact absurd rfl h | rfl

end Setting

def setting (opt : Opt) (optarg : String) : Except Stop Setting := match opt with
  | .blockSize => Setting.length <$> scanNumber 64 optarg
  | .count => Setting.count <$> scanNumber 64 optarg
  | .verb => Setting.verb <$> parseVerb optarg
  | .port => .ok (.port optarg)
  | .mode => Setting.mode <$> parseMode optarg
  | .repeat_ => Setting.repeat_ <$> scanNumber 64 optarg
  | .warmup => Setting.warmupCount <$> scanNumber 64 optarg
  | .mrCount => Setting.mrCount <$> scanNumber 64 optarg
  | .direction => Setting.direction <$> parseDirection optarg
  | .index => (fun n => Setting.index (UInt16.ofNat n)) <$> scanNumber 16 optarg
  | .tos => (fun n => Setting.tos (UInt8.ofNat n)) <$> scanNumber 8 optarg
  | .verbose => .ok .verbose
  | .help => .error .success
  | .unrecognized => .error (.failure "Unrecognized option '%c'.\n")

/-- **An option is a store to a field**, whatever the parameters are. -/
theorem parseOption_eq_store (params : DccsParameters) (opt : Opt) (optarg : String) :
    parseOption params opt optarg = (fun s => s.store params) <$> setting opt optarg := by
  cases opt with
  | port | verbose | help | unrecognized => rfl
  | verb =>
    simp only [parseOption, setting]
    cases parseVerb optarg <;> rfl
  | mode =>
    simp only [parseOption, setting]
    cases parseMode optarg <;> rfl
  | direction =>
    simp only [parseOption, setting]
    cases parseDirection optarg <;> rfl
  | index =>
    simp only [parseOption, setting]
    cases scanNumber 16 optarg <;> rfl
  | tos =>
    simp only [parseOption, setting]
    cases scanNumber 8 optarg <;> rfl
  | blockSize | count | repeat_ | warmup | mrCount =>
    simp only [parseOption, setting]
    cases scanNumber 64 optarg <;> rfl

theorem opt_of_setting {opt : Opt} {optarg : String} {s : Setting} (h : setting opt optarg = .ok s) :
    s.opt = opt := by
  have hmap : ∀ {α : Type} {x : Except Stop α} {f : α → Setting}, f <$> x = .ok s →
    ∃ a, s = f a := by
    intro α x f h
    cases x with
    | error e => cases h
    | ok a => exact ⟨a, (Except.ok.inj h).symm⟩
  cases opt with
  | help | unrecognized => cases h
  | port | verbose =>
    cases h
    rfl
  | _ =>
    obtain ⟨a, rfl⟩ := hmap h
    rfl

/-! ## Outcomes -/

/-- Both runs fail, or both succeed with the same parameters. -/
inductive SameOutcome : Except Stop DccsParameters → Except Stop DccsParameters → Prop where
  | ok (params : DccsParameters) : SameOutcome (.ok params) (.ok params)
  | failure (format format' : String) :
    SameOutcome (.error (.failure format)) (.error (.failure format'))

/-- Only `--help` ends the program with success. -/
def Fails {α : Type} (r : Except Stop α) : Prop := r ≠ .error .success

theorem Fails.error {α : Type} {e : Stop} (h : Fails (.error e : Except Stop α)) :
    ∃ format, e = .failure format := by
  cases e with
  | success => exact absurd rfl h
  | failure format => exact ⟨format, rfl⟩

theorem fails_scanNumber (bits : Nat) (optarg : String) : Fails (scanNumber bits optarg) := by
  unfold scanNumber
  split
  · exact fun h => nomatch h
  · exact fun h => nomatch h

theorem Fails.map {α β : Type} {r : Except Stop α} (h : Fails r) (f : α → β) : Fails (f <$> r) := by
  cases r with
  | error e =>
    obtain ⟨format, rfl⟩ := h.error
    exact fun h => nomatch h
  | ok a => exact fun h => nomatch h

theorem fails_setting {opt : Opt} (h : opt ≠ .help) (optarg : String) :
    Fails (setting opt optarg) := by
  cases opt with
  | help => exact absurd rfl h
  | port | verbose | unrecognized => exact fun h => nomatch h
  | blockSize | count | repeat_ | warmup | mrCount | index | tos =>
    exact (fails_scanNumber _ _).map _
  | verb =>
    refine Fails.map ?_ _
    unfold parseVerb
    split_ifs <;> exact fun h => nomatch h
  | mode =>
    refine Fails.map ?_ _
    unfold parseMode
    split_ifs <;> exact fun h => nomatch h
  | direction =>
    refine Fails.map ?_ _
    unfold parseDirection
    split_ifs <;> exact fun h => nomatch h

namespace SameOutcome

theorem refl {r : Except Stop DccsParameters} (h : Fails r) : SameOutcome r r := by
  cases r with
  | ok params => exact .ok params
  | error e =>
    obtain ⟨format, rfl⟩ := h.error
    exact .failure format format

theorem trans {r r' r'' : Except Stop DccsParameters} (h : SameOutcome r r')
    (h' : SameOutcome r' r'') : SameOutcome r r'' := by
  cases h with
  | ok params => exact h'
  | failure format format' =>
    cases h' with
    | failure _ format'' => exact .failure format format''

theorem bind {r r' : Except Stop DccsParameters} (h : SameOutcome r r')
    {f : DccsParameters → Except Stop DccsParameters} (hf : ∀ params, Fails (f params)) :
    SameOutcome (r >>= f) (r' >>= f) := by
  cases h with
  | ok params => exact refl (hf params)
  | failure format format' => exact .failure format format'

end SameOutcome

/-! ## Permutations -/

def NoHelp (options : List OptionArg) : Prop := ∀ a ∈ options, a.opt ≠ .help

/-- No option of the two tables occurs twice. -/
def NotTwice (options : List OptionArg) : Prop :=
  options.Pairwise fun a b => a.opt = b.opt → a.opt = .unrecognized

theorem NotTwice.perm {options options' : List OptionArg} (h : NotTwice options)
    (hp : options.Perm options') : NotTwice options' :=
  (hp.pairwise_iff fun hab heq => heq ▸ hab heq.symm).1 h

theorem NoHelp.perm {options options' : List OptionArg} (h : NoHelp options)
    (hp : options.Perm options') : NoHelp options' :=
  fun a ha => h a (hp.mem_iff.2 ha)

theorem parseOptions_ok {a : OptionArg} {s : Setting} (h : setting a.opt a.optarg = .ok s)
    (params : DccsParameters) (options : List OptionArg) :
    parseOptions params (a :: options) = parseOptions (s.store params) options := by
  rw [parseOptions, List.foldlM_cons, parseOption_eq_store, h]
  rfl

theorem parseOptions_error {a : OptionArg} {e : Stop} (h : setting a.opt a.optarg = .error e)
    (params : DccsParameters) (options : List OptionArg) :
    parseOptions params (a :: options) = .error e := by
  rw [parseOptions, List.foldlM_cons, parseOption_eq_store, h]
  rfl

/-- What the first option does: it fails for good, or it stores something. -/
theorem NoHelp.head {a : OptionArg} {options : List OptionArg} (h : NoHelp (a :: options)) :
    (∃ format, setting a.opt a.optarg = .error (.failure format)) ∨
      ∃ s, setting a.opt a.optarg = .ok s := by
  have ha : Fails (setting a.opt a.optarg) := fails_setting (h a (by simp)) _
  cases hs : setting a.opt a.optarg with
  | error e =>
    rw [hs] at ha
    obtain ⟨format, rfl⟩ := ha.error
    exact .inl ⟨format, rfl⟩
  | ok s => exact .inr ⟨s, rfl⟩

theorem NoHelp.tail {a : OptionArg} {options : List OptionArg} (h : NoHelp (a :: options)) :
    NoHelp options :=
  fun b hb => h b (List.mem_cons_of_mem a hb)

theorem fails_parseOptions {options : List OptionArg} (h : NoHelp options) (params : DccsParameters) :
    Fails (parseOptions params options) := by
  induction options generalizing params with
  | nil => exact fun h => nomatch h
  | cons a options ih =>
    rcases h.head with ⟨format, hs⟩ | ⟨s, hs⟩
    · rw [parseOptions_error hs]
      exact fun h => nomatch h
    · rw [parseOptions_ok hs]
      exact ih h.tail _

/-- Two options change places. -/
theorem parseOptions_swap {a b : OptionArg} {options : List OptionArg}
    (hhelp : NoHelp (a :: b :: options)) (htwice : a.opt = b.opt → a.opt = .unrecognized)
    (params : DccsParameters) :
    SameOutcome (parseOptions params (a :: b :: options)) (parseOptions params (b :: a :: options)) := by
  rcases hhelp.head with ⟨format, ha⟩ | ⟨s, ha⟩
  · rcases hhelp.tail.head with ⟨format', hb⟩ | ⟨t, hb⟩
    · rw [parseOptions_error ha, parseOptions_error hb]
      exact .failure format format'
    · rw [parseOptions_error ha, parseOptions_ok hb, parseOptions_error ha]
      exact .failure format format
  · rcases hhelp.tail.head with ⟨format', hb⟩ | ⟨t, hb⟩
    · rw [parseOptions_ok ha, parseOptions_error hb, parseOptions_error hb]
      exact .failure format' format'
    · have hne : s.opt ≠ t.opt := by
        rw [opt_of_setting ha, opt_of_setting hb]
        intro heq
        rw [htwice heq] at ha
        cases ha
      rw [parseOptions_ok ha, parseOptions_ok hb, parseOptions_ok hb, parseOptions_ok ha,
        Setting.store_comm params hne]
      exact .refl (fails_parseOptions hhelp.tail.tail _)

theorem parseOptions_perm {options options' : List OptionArg} (hp : options.Perm options')
    (hhelp : NoHelp options) (htwice : NotTwice options) (params : DccsParameters) :
    SameOutcome (parseOptions params options) (parseOptions params options') := by
  induction hp generalizing params with
  | nil => exact .ok params
  | cons a _ ih =>
    rcases hhelp.head with ⟨format, hs⟩ | ⟨s, hs⟩
    · rw [parseOptions_error hs, parseOptions_error hs]
      exact .failure format format
    · rw [parseOptions_ok hs, parseOptions_ok hs]
      exact ih hhelp.tail (List.pairwise_cons.1 htwice).2 _
  | swap a b options =>
    exact parseOptions_swap hhelp ((List.pairwise_cons.1 htwice).1 a (by simp)) params
  | trans hp _ ih ih' =>
    exact (ih hhelp htwice params).trans (ih' (hhelp.perm hp) (htwice.perm hp) params)

/-- **Order independence.** Permuting the options does not change the outcome. -/
theorem parseArgs_perm {options options' : List OptionArg} (hp : options.Perm options')
    (hhelp : NoHelp options) (htwice : NotTwice options) (operands : List String) :
    SameOutcome (parseArgs ⟨options, operands⟩) (parseArgs ⟨options', operands⟩) := by
  refine (parseOptions_perm hp hhelp htwice defaultParams).bind fun params => ?_
  cases validateArgs (setServer operands (addWarmup params)) with
  | error format => exact fun h => nomatch h
  | ok params => exact fun h => nomatch h

/-- The mode before the count or after it. -/
theorem parseArgs_perm_throughput :
    SameOutcome (parseArgs ⟨[⟨.short 'm', "throughput"⟩, ⟨.long "count", "8"⟩, ⟨.short 'w', "2"⟩],
      ["10.0.0.2"]⟩)
      (parseArgs ⟨[⟨.short 'w', "2"⟩, ⟨.short 'm', "throughput"⟩, ⟨.long "count", "8"⟩], ["10.0.0.2"]⟩) :=
  parseArgs_perm (by decide) (by simp [NoHelp, OptionArg.opt, Spelling.opt, shortOption, longOption])
    (by simp [NotTwice, OptionArg.opt, Spelling.opt, shortOption, longOption]) _

end RdmaOpera
