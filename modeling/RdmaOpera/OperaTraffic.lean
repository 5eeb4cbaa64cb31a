import Mathlib.Data.List.GetD
import Mathlib.Data.List.Perm.Basic
import RdmaOpera.TaggedLogs

/-!
# `plot-opera-ll-traffic.py`

| here | there |
| --- | --- |
| `load`                         | how Python 2 finds what a name in a function stands for |
| `moduleNames`                  | the names the script binds outside of its functions |
| `plotTtlCdf`                   | `plot_ttl_cdf` (`:146-154`); the labels of the curves are left out |
| `processLog`, `processTxt`     | `process_log`, `process_txt` (`:89-110`, `:112-118`) |
| `processTtl`                   | `process_ttl` (`:120-132`) |
| `checkTtls`, `mainTurn`        | the assertions of `main` (`:162-163`), and its loop (`:166-190`) |
| `mainExport`, `exportRows`     | what `main` reads, and what it exports (`:156-191`, `:207-213`) |

Plotting has no other effect here. `int`, `float` and `2 * latency` are parameters.
-/

namespace RdmaOpera.OperaTraffic

open Lib
open Logs (dictAdd held rstrip)

/-! ## Names -/

/-- What the names of the script are bound to, as far as it matters. -/
inductive Value (F : Type) where
  | rtts (l : List F)
  | ttls (l : List Int)
  | object

abbrev Frame (F : Type) := List (String × Value F)

/-- The built-in functions and exceptions that the script uses. -/
def builtinNames : List String :=
  ["int", "float", "len", "str", "enumerate", "xrange", "sum", "min", "max", "reduce",
    "ValueError", "AssertionError"]

/-- The names bound by the statements of the module: imports, assignments and functions;
`matplotlib` only with `--output`. -/
def moduleNames (output : Bool) : List String :=
  ["__name__", "__doc__", "__file__", "__package__", "__builtins__", "argparse", "re",
    "os", "sys", "np", "parser", "args"] ++
    (if output then ["matplotlib"] else []) ++
    ["plt", "AutoMinorLocator", "GAP", "warmup", "cooldown", "RATE", "LINEWIDTH", "plot_cdf",
      "plot_time", "plot_scatter",
      "set_plot_options", "print_stats", "get_shortname", "process_log", "process_txt",
        "process_ttl", "plot_log", "plot_ttl_cdf", "main"]

def moduleFrame (F : Type) (output : Bool) : Frame F :=
  (moduleNames output).map fun x => (x, .object)

/-- A name that the function binds is one of the innermost call, every other is one of the module or
built in; the calls that led there have no say in it. -/
def load {F : Type} (bound : List String) (calls : List (Frame F)) (globals : Frame F) (x : String) :
    Except String (Value F) :=
  if x ∈ bound then match calls.head?.bind (List.lookup x) with
    | some v => .ok v
    | none =>
      .error ("UnboundLocalError: local variable '" ++ x ++ "' referenced before assignment")
  else match globals.lookup x with
    | some v => .ok v
    | none =>
      if x ∈ builtinNames then .ok .object
      else .error ("NameError: global name '" ++ x ++ "' is not defined")

section
variable {F : Type}

/-! ## The split by TTL -/

/-- The parameters of `plot_ttl_cdf`, and what it assigns to. -/
def plotTtlCdfNames : List String := ["arr_rtt", "arr_ttl", "name", "d", "i", "rtt", "ttl"]

def Value.elements : Value F → Except String (List F)
  | .rtts l => .ok l
  | _ => .error "TypeError: object is not iterable"

def Value.item : Value F → Nat → Except String Int
  | .ttls l, i => match l[i]? with
    | some ttl => .ok ttl
    | none => .error "IndexError: list index out of range"
  | _, _ => .error "TypeError: object is not indexable"

/-- The call, with its parameters. -/
def plotTtlCdfFrame (arrRtt : List F) (arrTtl : List Int) : Frame F :=
  [("arr_rtt", .rtts arrRtt), ("arr_ttl", .ttls arrTtl), ("name", .object)]

/-- `d[ttl].append(rtt)`, with `[]` for a new `ttl`. -/
def dictAppend (ttl : Int) (rtt : F) (d : List (Int × List F)) : List (Int × List F) :=
  dictAdd [] (fun l rtt => l ++ [rtt]) ttl rtt d

/-- The body of its loop. -/
def splitOne (calls : List (Frame F)) (globals : Frame F) (d : List (Int × List F)) (x : F × Nat) :
    Except String (List (Int × List F)) := do
  let ttls ← load plotTtlCdfNames calls globals "ttls"
  let ttl ← ttls.item x.2
  pure (dictAppend ttl x.1 d)

/-- The dictionary `d`, each entry of which is plotted; `calls` are those that led here. -/
def plotTtlCdf (calls : List (Frame F)) (globals : Frame F) (arrRtt : List F) (arrTtl : List Int) :
    Except String (List (Int × List F)) := do
  let calls := plotTtlCdfFrame arrRtt arrTtl :: calls
  let rtts ← load plotTtlCdfNames calls globals "rtts"
  let rtts ← rtts.elements
  rtts.zipIdx.foldlM (splitOne calls globals) []

/-- The call of `main` that reads a log and its TTLs. -/
def mainFrame (rtts : List F) (ttls : List Int) : Frame F :=
  [("index", .object), ("f", .object), ("name", .object), ("rtts", .rtts rtts),
    ("ttls", .ttls ttls)]

/-- One curve for each TTL, of its RTTs in order. -/
structure Split (rtts : List F) (ttls : List Int) (plots : List (Int × List F)) : Prop where
  once : (plots.map Prod.fst).Nodup
  group : ∀ ttl, plots.lookup ttl = held (((rtts.zip ttls).filter fun x => x.2 = ttl).map Prod.fst)
  all : (plots.flatMap Prod.snd).Perm rtts

/-- What `main` calls `plot_ttl_cdf` for. -/
def TtlSplit (globals : Frame F) (rtts : List F) (ttls : List Int) : Prop :=
  ∃ plots, plotTtlCdf [mainFrame rtts ttls] globals rtts ttls = .ok plots ∧ Split rtts ttls plots

theorem lookup_moduleFrame {output : Bool} {x : String} (hx : x ∉ moduleNames output) :
    (moduleFrame F output).lookup x = none := by
  unfold moduleFrame
  generalize moduleNames output = names at hx ⊢
  induction names with
  | nil => rfl
  | cons y names ih =>
    rw [List.mem_cons, not_or] at hx
    rw [List.map_cons, List.lookup_cons, beq_false_of_ne hx.1]
    exact ih hx.2

/-- A name that is neither the function's nor the module's nor built in. -/
theorem load_unknown {bound : List String} {calls : List (Frame F)} {output : Bool} {x : String}
    (hbound : x ∉ bound) (hmodule : x ∉ moduleNames output) (hbuiltin : x ∉ builtinNames) :
    load bound calls (moduleFrame F output) x =
      .error ("NameError: global name '" ++ x ++ "' is not defined") := by
  unfold load
  rw [if_neg hbound, lookup_moduleFrame hmodule]
  exact if_neg hbuiltin

theorem plotTtlCdf_module (output : Bool) (rtts : List F) (ttls : List Int) :
    plotTtlCdf [mainFrame rtts ttls] (moduleFrame F output) rtts ttls =
      .error "NameError: global name 'rtts' is not defined" := by
  have hmodule : "rtts" ∉ moduleNames output := by cases output <;> decide
  have hbound : "rtts" ∉ plotTtlCdfNames := by decide
  unfold plotTtlCdf
  simp only [load_unknown hbound hmodule (by decide)]
  rfl

theorem not_ttlSplit (output : Bool) (rtts : List F) (ttls : List Int) :
    ¬ TtlSplit (moduleFrame F output) rtts ttls := by
  rintro ⟨plots, hplots, -⟩
  rw [plotTtlCdf_module] at hplots
  cases hplots

/-- **TTL split.** `rtts` and `ttls` are names of `main` and of nothing else: nothing is plotted,
whatever the lists. -/
theorem ttlSplit_never (output : Bool) (rtts : List F) (ttls : List Int) :
    plotTtlCdf [mainFrame rtts ttls] (moduleFrame F output) rtts ttls =
      .error "NameError: global name 'rtts' is not defined" ∧
      ¬ TtlSplit (moduleFrame F output) rtts ttls :=
  ⟨plotTtlCdf_module output rtts ttls, not_ttlSplit output rtts ttls⟩

/-- Two RTTs, and the three TTLs that `main` asks for. -/
theorem ttlSplit_counterexample :
    [5, 7].length + 1 = [1, 2, 1].length ∧ ¬ TtlSplit (moduleFrame Nat false) [5, 7] [1, 2, 1] :=
  ⟨rfl, not_ttlSplit false [5, 7] [1, 2, 1]⟩

/-! ## If the names were those of the module -/

theorem lookup_dictAppend (ttl : Int) (rtt : F) (d : List (Int × List F)) (ttl' : Int) :
    (dictAppend ttl rtt d).lookup ttl' = if ttl' = ttl then some ((d.lookup ttl).getD [] ++
      [rtt]) else d.lookup ttl' := by
  unfold dictAppend
  induction d with
  | nil =>
    by_cases h : ttl' = ttl
    · simp [dictAdd, h]
    · simp [dictAdd, List.lookup_cons, h, beq_false_of_ne h]
  | cons x d ih =>
    obtain ⟨k, v⟩ := x
    unfold dictAdd
    by_cases hx : k = ttl
    · subst hx
      by_cases h : ttl' = k
      · simp [h]
      · simp [List.lookup_cons, h, beq_false_of_ne h]
    · have hne : (ttl == k) = false := beq_false_of_ne (Ne.symm hx)
      rw [if_neg hx, List.lookup_cons, List.lookup_cons, List.lookup_cons, ih, hne]
      by_cases h : ttl' = k
      · simp [h, hx]
      · rw [beq_false_of_ne h]

theorem mem_keys_dictAppend (ttl : Int) (rtt : F) (d : List (Int × List F)) (ttl' : Int) :
    ttl' ∈ (dictAppend ttl rtt d).map Prod.fst ↔ ttl' = ttl ∨ ttl' ∈ d.map Prod.fst := by
  unfold dictAppend
  induction d with
  | nil => simp [dictAdd]
  | cons x d ih =>
    unfold dictAdd
    by_cases hx : x.1 = ttl
    · subst hx
      simp
    · rw [if_neg hx, List.map_cons, List.mem_cons, ih, List.map_cons, List.mem_cons]
      exact or_left_comm

theorem nodup_keys_dictAppend {ttl : Int} {rtt : F} {d : List (Int × List F)}
    (h : (d.map Prod.fst).Nodup) :
    ((dictAppend ttl rtt d).map Prod.fst).Nodup := by
  induction d with
  | nil => simp [dictAppend, dictAdd]
  | cons x d ih =>
    rw [List.map_cons, List.nodup_cons] at h
    have hrest := ih h.2
    have hmem := mem_keys_dictAppend ttl rtt d x.1
    unfold dictAppend at hrest hmem ⊢
    unfold dictAdd
    by_cases hx : x.1 = ttl
    · rw [if_pos hx, List.map_cons, List.nodup_cons]
      exact h
    · rw [if_neg hx, List.map_cons, List.nodup_cons, hmem]
      exact ⟨fun hor => hor.elim hx h.1, hrest⟩

/-- The new element is in its group. -/
theorem perm_dictAppend (ttl : Int) (rtt : F) (d : List (Int × List F)) :
    ((dictAppend ttl rtt d).flatMap Prod.snd).Perm (d.flatMap Prod.snd ++ [rtt]) := by
  unfold dictAppend
  induction d with
  | nil => simp [dictAdd]
  | cons x d ih =>
    unfold dictAdd
    by_cases hx : x.1 = ttl
    · rw [if_pos hx, List.flatMap_cons, List.flatMap_cons, List.append_assoc, List.append_assoc]
      exact List.perm_append_comm.append_left _
    · rw [if_neg hx, List.flatMap_cons, List.flatMap_cons, List.append_assoc]
      exact ih.append_left _

/-- The loop keeps its dictionary split. -/
theorem split_foldl (xs : List (F × Int)) :
    ((xs.foldl (fun d x => dictAppend x.2 x.1 d) []).map Prod.fst).Nodup ∧
      (∀ ttl, (xs.foldl (fun d x => dictAppend x.2 x.1 d) []).lookup ttl =
      held ((xs.filter fun x => x.2 = ttl).map Prod.fst)) ∧
      ((xs.foldl (fun d x => dictAppend x.2 x.1 d) []).flatMap Prod.snd).Perm (xs.map Prod.fst) := by
  induction xs using List.reverseRecOn with
  | nil => exact ⟨List.nodup_nil, fun _ => rfl, .nil⟩
  | append_singleton xs x ih =>
    obtain ⟨honce, hgroup, hall⟩ := ih
    rw [List.foldl_append, List.foldl_cons, List.foldl_nil, List.map_append]
    refine ⟨nodup_keys_dictAppend honce, fun ttl => ?_,
      (perm_dictAppend _ _ _).trans (hall.append_right _)⟩
    rw [lookup_dictAppend, hgroup, hgroup, Logs.getD_held]
    by_cases httl : ttl = x.2
    · subst httl
      simp [List.filter_append, held]
    · rw [if_neg httl, List.filter_append]
      simp [Ne.symm httl]

section
variable {calls : List (Frame F)} {globals : Frame F} {rtts : List F} {ttls : List Int}

theorem load_global {bound : List String} {x : String} {v : Value F} (hbound : x ∉ bound)
    (hx : globals.lookup x = some v) :
    load bound calls globals x = .ok v := by
  unfold load
  rw [if_neg hbound, hx]

theorem splitOne_eq (httls : globals.lookup "ttls" = some (.ttls ttls)) (d : List (Int × List F))
    (rtt : F) {k : Nat} (hk : k < ttls.length) :
    splitOne calls globals d (rtt, k) = .ok (dictAppend ttls[k] rtt d) := by
  have hitem : (Value.ttls ttls : Value F).item k = .ok ttls[k] := by simp [Value.item, hk]
  unfold splitOne
  rw [load_global (by decide) httls]
  show ((Value.ttls ttls : Value F).item k >>= _) = _
  rw [hitem]
  rfl

/-- The loop from index `k` on. -/
theorem foldlM_splitOne (httls : globals.lookup "ttls" = some (.ttls ttls)) (rest : List F) :
    ∀ (k : Nat) (d : List (Int × List F)),
    k + rest.length ≤ ttls.length → (rest.zipIdx k).foldlM (splitOne calls globals) d =
      .ok ((rest.zip (ttls.drop k)).foldl (fun d x => dictAppend x.2 x.1 d) d) := by
  induction rest with
  | nil =>
    intro k d _
    rfl
  | cons rtt rest ih =>
    intro k d hle
    rw [List.length_cons] at hle
    have hk : k < ttls.length := by omega
    rw [List.zipIdx_cons, List.foldlM_cons, splitOne_eq httls d rtt hk,
      List.drop_eq_getElem_cons hk, List.zip_cons_cons]
    exact ih (k + 1) _ (by omega)

/-- Were the two names those of the module, and the arguments their values, the split would be what
it is meant to be. -/
theorem ttlSplit_of_globals (hrtts : globals.lookup "rtts" = some (.rtts rtts))
    (httls : globals.lookup "ttls" = some (.ttls ttls)) (hlen : rtts.length + 1 = ttls.length) :
    TtlSplit globals rtts ttls := by
  obtain ⟨honce, hgroup, hall⟩ := split_foldl (rtts.zip ttls)
  rw [List.map_fst_zip (by omega)] at hall
  refine ⟨_, ?_, honce, hgroup, hall⟩
  have hbound : "rtts" ∉ plotTtlCdfNames := by decide
  unfold plotTtlCdf
  simp only [load_global hbound hrtts]
  exact foldlM_splitOne httls rtts 0 [] (by omega)

end

/-! ## The export -/

/-- `args.logs`: the lines of a file, and what its name ends in. -/
inductive LogFile where
  | log (lines : List (List Char))
  | txt (lines : List (List Char))
  | other

/-- One of `args.ttls`. -/
abbrev TtlFile := List (List Char)

/-- `line.split(", ")` -/
def splitComma : List Char → List (List Char)
  | [] => [[]]
  | ',' :: ' ' :: s => [] :: splitComma s
  | c :: s => match splitComma s with
    | [] => [[c]]
    | field :: fields => (c :: field) :: fields

section
variable (int : List Char → Option Int) (float : List Char → Option F) (twice : F → F)

def logHeader : List Char := "#, usec".toList

/-- The loop of `process_log`; `header` up to the header line. -/
def processLog : Bool → List F → List (List Char) → Except String (List F)
  | _, rtts, [] => .ok rtts
  | header, rtts, line :: rest =>
    let line := rstrip line
    if header ∧ line = logHeader then processLog false rtts rest
    else if header then processLog header rtts rest
    else if line.head? = some ' ' then .ok rtts
    else match splitComma line with
      | index :: latency :: _ => match int index, float latency with
        | none, _ => .error "ValueError: invalid literal for int() with base 10"
        | some _, none => .error "ValueError: could not convert string to float"
        | some _, some latency => processLog header (rtts ++ [twice latency]) rest
      -- skipped, with a message
      | _ => processLog header rtts rest

def processTxt (lines : List (List Char)) : Except String (List F) :=
  lines.mapM fun line => match float (rstrip line) with
  | some rtt => .ok rtt
  | none => .error "ValueError: could not convert string to float"

def readLog : LogFile → Except String (List F)
  | .log lines => processLog int float twice true [] lines
  | .txt lines => processTxt float lines
  | .other => .error "ValueError: Unrecognized log file type"

/-- `sys.maxint`, which is also the most a list can hold. -/
def maxint : Nat := 2 ^ 63 - 1

/-- `warmup`, `cooldown`, `RATE`. -/
def warmup : Nat := 0
def cooldown : Nat := maxint
def rate : Nat := 500

/-- `rtts[int(warmup * RATE):int(cooldown * RATE)]`, and the same of `ttls`. -/
def discardWarmup {α : Type} (l : List α) : List α := (l.take (cooldown * rate)).drop (warmup * rate)

/-- `src` and `dst` are read and not used. -/
def processTtl (lines : TtlFile) : Except String (List Int) :=
  (lines.drop 1).mapM fun line => match (rstrip line).splitOn ',' with
  | _ :: _ :: ttl :: _ => match int ttl with
    | some ttl => .ok ttl
    | none => .error "ValueError: invalid literal for int() with base 10"
  | _ => .error "IndexError: list index out of range"

def checkTtls (cdf : Bool) (logs : List LogFile) : Option (List TtlFile) → Except String Unit
  | none => .ok ()
  | some ttls =>
    if logs.length ≠ ttls.length then
      .error "AssertionError: Not the same number of TTL files as log files."
    else if cdf then .ok ()
    else .error "AssertionError: Only \"cdf\" mode is supported with TTL logs."

/-- The RTTs of one log, once they are plotted; `args.output` decides what the module binds. -/
def mainTurn (output cdf : Bool) (f : LogFile) (ttlFile : Option TtlFile) :
    Except String (List F) := do
  let rtts ← readLog int float twice f
  let rtts := if cdf then discardWarmup rtts else rtts
  match ttlFile with
  | none => pure rtts
  | some lines =>
    let ttls ← processTtl int lines
    let ttls := if cdf then discardWarmup ttls else ttls
    if rtts.length + 1 = ttls.length then
      let _ ← plotTtlCdf [mainFrame rtts ttls] (moduleFrame F output) rtts ttls
      pure rtts
    else .error "AssertionError: Not the same number of TTL entries as RTTs"

/-- `args.logs[index]` and `args.ttls[index]` -/
def mainFiles (ttls : Option (List TtlFile)) (logs : List LogFile) :
    List (LogFile × Option TtlFile) :=
  match ttls with
  | none => logs.map fun f => (f, none)
  | some ttls => logs.zip (ttls.map some)

/-- `mat`. -/
def readLogs (output cdf : Bool) (ttls : Option (List TtlFile)) (logs : List LogFile) :
    Except String (List (List F)) := do
  checkTtls cdf logs ttls
  (mainFiles ttls logs).mapM fun x => mainTurn int float twice output cdf x.1 x.2

/-- The lines from `index` on, `turns` of them, each of one RTT of every log; and the exception that
ended the loop. -/
def exportFrom (mat : List (List F)) : Nat → Nat → List (List F) × Option String
  | 0, _ => ([], none)
  | turns + 1, index => match mat.mapM fun rtts => rtts[index]? with
    | none => ([], some "IndexError: list index out of range")
    | some arr =>
      let (rows, raised) := exportFrom mat turns (index + 1)
      (arr :: rows, raised)

def exportRows : List (List F) → List (List F) × Option String
  | [] => ([], some "IndexError: list index out of range")
  | rtts :: mat => exportFrom (rtts :: mat) rtts.length 0

/-- What `main` with `--export` writes, and the exception it ends with. -/
def mainExport (output cdf : Bool) (ttls : Option (List TtlFile)) (logs : List LogFile) :
    List (List F) × Option String :=
  match readLogs int float twice output cdf ttls logs with
  | .error e => ([], some e)
  | .ok mat => exportRows mat

/-- All that was read has been written, once. -/
structure CsvComplete (output cdf : Bool) (ttls : Option (List TtlFile)) (logs : List LogFile)
    (rtts : List (List F)) : Prop where
  finished : (mainExport int float twice output cdf ttls logs).2 = none
  written : ((mainExport int float twice output cdf ttls logs).1.flatten).Perm rtts.flatten

/-! ### A column of every log -/

theorem lt_of_mapM {mat : List (List F)} {index : Nat} {arr : List F}
    (h : (mat.mapM fun rtts => rtts[index]?) = some arr) :
    ∀ rtts ∈ mat, index < rtts.length := by
  induction mat generalizing arr with
  | nil => exact nofun
  | cons first mat ih =>
    rw [List.mapM_cons] at h
    obtain ⟨rtt, hrtt, h⟩ := Option.bind_eq_some_iff.1 h
    obtain ⟨arr', harr, -⟩ := Option.bind_eq_some_iff.1 h
    intro rtts hrtts
    rcases List.mem_cons.1 hrtts with rfl | hrtts
    · exact (List.getElem?_eq_some_iff.1 hrtt).1
    · exact ih harr rtts hrtts

/-- It takes the next RTT of each. -/
theorem exists_mapM {mat : List (List F)} {index : Nat} (h : ∀ rtts ∈ mat, index < rtts.length) :
    ∃ arr, (mat.mapM fun rtts => rtts[index]?) = some arr ∧ ∀ turns,
      (arr ++ mat.flatMap fun rtts => (rtts.drop (index + 1)).take turns).Perm
        (mat.flatMap fun rtts => (rtts.drop index).take (turns + 1)) := by
  induction mat with
  | nil => exact ⟨[], rfl, fun _ => .nil⟩
  | cons first mat ih =>
    obtain ⟨arr, harr, hperm⟩ := ih fun rtts hrtts => h rtts (List.mem_cons_of_mem first hrtts)
    have hfirst : index < first.length := h first List.mem_cons_self
    refine ⟨first[index] :: arr, ?_, fun turns => ?_⟩
    · rw [List.mapM_cons, List.getElem?_eq_getElem hfirst, harr]
      rfl
    · rw [List.flatMap_cons, List.flatMap_cons, List.drop_eq_getElem_cons hfirst,
        List.take_succ_cons, List.cons_append, List.cons_append]
      refine .cons _ (List.Perm.trans ?_ ((hperm turns).append_left _))
      rw [← List.append_assoc, ← List.append_assoc]
      exact List.perm_append_comm.append_right _

/-- No exception is raised if every log goes as far as the loop, and the loop has then taken that
much of each. -/
theorem exportFrom_spec (mat : List (List F)) : ∀ turns index,
    ((exportFrom mat turns index).2 = none ↔ turns = 0 ∨ ∀ rtts ∈ mat, index + turns ≤ rtts.length) ∧
      ((exportFrom mat turns index).2 = none →
        ((exportFrom mat turns index).1.flatten).Perm
        (mat.flatMap fun rtts => (rtts.drop index).take turns)) := by
  intro turns
  induction turns with
  | zero =>
    intro index
    exact ⟨⟨fun _ => .inl rfl, fun _ => rfl⟩, fun _ => by simp [exportFrom]⟩
  | succ turns ih =>
    intro index
    obtain ⟨hraised, hrows⟩ := ih (index + 1)
    unfold exportFrom
    by_cases hlong : ∀ rtts ∈ mat, index < rtts.length
    · obtain ⟨arr, harr, hperm⟩ := exists_mapM hlong
      rw [harr]
      refine ⟨hraised.trans ⟨fun h => .inr fun rtts hrtts => ?_, fun h => ?_⟩, fun h => ?_⟩
      · have hfirst := hlong rtts hrtts
        rcases h with rfl | h
        · omega
        · have := h rtts hrtts
          omega
      · right
        intro rtts hrtts
        have := h.resolve_left (Nat.succ_ne_zero turns) rtts hrtts
        omega
      · rw [List.flatten_cons]
        exact ((hrows h).append_left arr).trans (hperm turns)
    · have hnone : (mat.mapM fun rtts => rtts[index]?) = none := by
        rw [Option.eq_none_iff_forall_ne_some]
        exact fun arr harr => hlong (lt_of_mapM harr)
      rw [hnone]
      refine ⟨⟨nofun, fun h => absurd (fun rtts hrtts => ?_) hlong⟩, nofun⟩
      have := h.resolve_left (Nat.succ_ne_zero turns) rtts hrtts
      omega

/-! ### All of every log -/

theorem length_flatMap_take_le (mat : List (List F)) (n : Nat) :
    (mat.flatMap fun rtts => rtts.take n).length ≤ mat.flatten.length := by
  induction mat with
  | nil => exact le_rfl
  | cons rtts mat ih =>
    rw [List.flatMap_cons, List.flatten_cons, List.length_append, List.length_append]
    exact Nat.add_le_add (List.length_take_le' _ _) ih

theorem le_of_length_flatMap_take {mat : List (List F)} {n : Nat}
    (h : (mat.flatMap fun rtts => rtts.take n).length = mat.flatten.length) :
    ∀ rtts ∈ mat, rtts.length ≤ n := by
  induction mat with
  | nil => exact nofun
  | cons first mat ih =>
    rw [List.flatMap_cons, List.flatten_cons, List.length_append, List.length_append,
      List.length_take] at h
    have hle := length_flatMap_take_le mat n
    intro rtts hrtts
    rcases List.mem_cons.1 hrtts with rfl | hrtts
    · omega
    · exact ih (by omega) rtts hrtts

theorem flatMap_take_of_le {mat : List (List F)} {n : Nat} (h : ∀ rtts ∈ mat, rtts.length ≤ n) :
    (mat.flatMap fun rtts => rtts.take n) = mat.flatten := by
  induction mat with
  | nil => rfl
  | cons rtts mat ih =>
    rw [List.flatMap_cons, List.flatten_cons, ih fun r hr => h r (List.mem_cons_of_mem rtts hr),
      List.take_of_length_le (h rtts List.mem_cons_self)]

theorem exportRows_iff (first : List F) (mat : List (List F)) :
    ((exportRows (first :: mat)).2 = none ∧
      ((exportRows (first :: mat)).1.flatten).Perm (first :: mat).flatten) ↔
      ∀ rtts ∈ mat, rtts.length = first.length := by
  obtain ⟨hraised, hrows⟩ := exportFrom_spec (first :: mat) first.length 0
  simp only [List.drop_zero, Nat.zero_add] at hraised hrows
  constructor
  · rintro ⟨hnone, hperm⟩ rtts hrtts
    have hlen := ((hrows hnone).symm.trans hperm).length_eq
    have hle := le_of_length_flatMap_take hlen rtts (List.mem_cons_of_mem first hrtts)
    rcases hraised.1 hnone with hzero | hall
    · omega
    · exact le_antisymm hle (hall rtts (List.mem_cons_of_mem first hrtts))
  · intro h
    have hall : ∀ rtts ∈ first :: mat, rtts.length = first.length := by
      intro rtts hrtts
      rcases List.mem_cons.1 hrtts with rfl | hrtts
      · rfl
      · exact h rtts hrtts
    have hnone := hraised.2 (.inr fun rtts hrtts => (hall rtts hrtts).ge)
    refine ⟨hnone, ?_⟩
    rw [← flatMap_take_of_le fun rtts hrtts => (hall rtts hrtts).le]
    exact hrows hnone

/-! ### What `main` reads -/

variable {int float twice}

/-- The warm-up is no time, and the cool-down never comes. -/
theorem discardWarmup_eq {α : Type} {l : List α} (h : l.length ≤ maxint) :
    discardWarmup l = l := by
  have hle : l.length ≤ cooldown * rate := le_trans h (Nat.le_mul_of_pos_right _ (by decide))
  rw [discardWarmup, List.take_of_length_le hle, warmup, Nat.zero_mul, List.drop_zero]

/-- Without TTLs a log is only read. -/
theorem mainTurn_none {output cdf : Bool} {f : LogFile} {rtts : List F}
    (hread : readLog int float twice f = .ok rtts) (hsize : rtts.length ≤ maxint) :
    mainTurn int float twice output cdf f none = .ok rtts := by
  have hall : (if cdf then discardWarmup rtts else rtts) = rtts := by
    split
    · exact discardWarmup_eq hsize
    · rfl
  unfold mainTurn
  rw [hread]
  exact congrArg Except.ok hall

/-- With them the turn never ends: if nothing else does, `plot_ttl_cdf` raises. -/
theorem mainTurn_some {output cdf : Bool} {f : LogFile} {rtts : List F}
    (hread : readLog int float twice f = .ok rtts) (lines : TtlFile) :
    ∃ e, mainTurn int float twice output cdf f (some lines) = .error e := by
  unfold mainTurn
  rw [hread]
  show ∃ e, (processTtl int lines >>= _) = Except.error e
  cases processTtl int lines with
  | error e => exact ⟨e, rfl⟩
  | ok ttls =>
    dsimp only [bind, Except.bind, pure, Except.pure]
    generalize (if cdf then discardWarmup rtts else rtts) = rtts
    generalize (if cdf then discardWarmup ttls else ttls) = ttls
    rw [plotTtlCdf_module]
    by_cases hlen : rtts.length + 1 = ttls.length
    · rw [if_pos hlen]
      exact ⟨_, rfl⟩
    · rw [if_neg hlen]
      exact ⟨_, rfl⟩

theorem readLogs_none {output cdf : Bool} {logs : List LogFile} :
    ∀ {mat : List (List F)}, logs.mapM (readLog int float twice) = .ok mat →
    (∀ rtts ∈ mat, rtts.length ≤ maxint) →
    readLogs int float twice output cdf none logs = .ok mat := by
  induction logs with
  | nil =>
    intro mat hread _
    exact hread
  | cons f logs ih =>
    intro mat hread hsize
    rw [List.mapM_cons] at hread
    cases hf : readLog int float twice f with
    | error e =>
      rw [hf] at hread
      cases hread
    | ok rtts =>
      cases hlogs : logs.mapM (readLog int float twice) with
      | error e =>
        rw [hf, hlogs] at hread
        cases hread
      | ok rest =>
        rw [hf, hlogs] at hread
        cases hread
        have hfirst : mainTurn int float twice output cdf f none = .ok rtts :=
          mainTurn_none hf (hsize rtts List.mem_cons_self)
        have hrest : (mainFiles none logs).mapM
            (fun x => mainTurn int float twice output cdf x.1 x.2) = .ok rest :=
          ih hlogs fun r hr => hsize r (List.mem_cons_of_mem rtts hr)
        show (mainFiles none (f :: logs)).mapM
          (fun x => mainTurn int float twice output cdf x.1 x.2) = _
        rw [mainFiles, List.map_cons, List.mapM_cons, hfirst]
        rw [mainFiles] at hrest
        rw [hrest]
        rfl

/-- The first log is as far as `main` gets. -/
theorem readLogs_some {output cdf : Bool} {ttls : List TtlFile} {logs : List LogFile}
    {first : List F} {mat : List (List F)}
    (hread : logs.mapM (readLog int float twice) = .ok (first :: mat)) :
    ∃ e, readLogs int float twice output cdf (some ttls) logs = .error e := by
  cases logs with
  | nil => cases hread
  | cons f logs =>
    have hf : ∃ rtts, readLog int float twice f = .ok rtts := by
      rw [List.mapM_cons] at hread
      cases hf : readLog int float twice f with
      | error e =>
        rw [hf] at hread
        cases hread
      | ok rtts => exact ⟨rtts, rfl⟩
    obtain ⟨rtts, hf⟩ := hf
    unfold readLogs
    cases hcheck : checkTtls cdf (f :: logs) (some ttls) with
    | error e => exact ⟨e, rfl⟩
    | ok _ =>
      cases ttls with
      | nil => cases hcheck
      | cons lines ttls =>
        obtain ⟨e, he⟩ : ∃ e, mainTurn int float twice output cdf f (some lines) = .error e :=
          mainTurn_some hf lines
        refine ⟨e, ?_⟩
        show (mainFiles (some (lines :: ttls)) (f :: logs)).mapM
          (fun x => mainTurn int float twice output cdf x.1 x.2) = _
        rw [mainFiles, List.map_cons, List.zip_cons_cons, List.mapM_cons, he]
        rfl

/-- **CSV export.** It is complete exactly if there are no TTLs and every log has as many RTTs as the
first one. -/
theorem csvComplete_iff {output cdf : Bool} {ttls : Option (List TtlFile)} {logs : List LogFile}
    {first : List F} {mat : List (List F)}
    (hread : logs.mapM (readLog int float twice) = .ok (first :: mat))
    (hsize : ∀ rtts ∈ first :: mat, rtts.length ≤ maxint) :
    CsvComplete int float twice output cdf ttls logs (first :: mat) ↔
      ttls = none ∧ ∀ rtts ∈ mat, rtts.length = first.length := by
  cases ttls with
  | none =>
    have hexport : mainExport int float twice output cdf none logs = exportRows (first :: mat) := by
      rw [mainExport, readLogs_none hread hsize]
    rw [← exportRows_iff, ← hexport]
    exact ⟨fun h => ⟨rfl, h.finished, h.written⟩, fun h => ⟨h.2.1, h.2.2⟩⟩
  | some ttls =>
    obtain ⟨e, he⟩ : ∃ e, readLogs int float twice output cdf (some ttls) logs = .error e :=
      readLogs_some hread
    refine ⟨fun h => ?_, fun h => nomatch h.1⟩
    have hfinished := h.finished
    rw [mainExport, he] at hfinished
    cases hfinished

end

end

/-! ### Two connections -/

/-- A log of one or more latencies of one digit each. -/
def logOf (digits : List Char) : LogFile :=
  .log ((logHeader ++ ['\n']) :: digits.map fun digit => ['0', ',', ' ', digit, '\n'])

theorem csvComplete_iff_two :
    CsvComplete (fun text => some (Logs.int text)) (fun text => some (Logs.int text))
      (fun latency => 2 * latency) false true none [logOf ['5', '7'], logOf ['6', '8']]
      [[10, 14], [12, 16]] :=
  (csvComplete_iff (by decide) (by decide)).2 (by decide)

/-- Two RTTs want three TTLs, behind the header. -/
def ttlFile : TtlFile :=
  ["src,dst,ttl\n".toList, "0,1,3\n".toList, "0,1,4\n".toList, "0,1,3\n".toList]

/-- A second log that is longer is cut, one that is shorter ends the script, and so do TTLs. -/
theorem csvComplete_counterexample :
    ¬ CsvComplete (fun text => some (Logs.int text)) (fun text => some (Logs.int text))
      (fun latency => 2 * latency) false false none [logOf ['5'], logOf ['6', '8']]
      [[10], [12, 16]] ∧
    mainExport (fun text => some (Logs.int text)) (fun text => some (Logs.int text))
      (fun latency => 2 * latency) false false none [logOf ['6', '8'], logOf ['5']] =
      ([[12, 10]], some "IndexError: list index out of range") ∧
    mainExport (fun text => some (Logs.int text)) (fun text => some (Logs.int text))
      (fun latency => 2 * latency) false true (some [ttlFile, ttlFile])
      [logOf ['5', '7'], logOf ['6', '8']] =
      ([], some "NameError: global name 'rtts' is not defined") := by
  refine ⟨fun h => ?_, by decide, by decide⟩
  have hrows : (mainExport (fun text => some (Logs.int text)) (fun text => some (Logs.int text))
    (fun latency => 2 * latency) false false none
      [logOf ['5'], logOf ['6', '8']]).1 = [[10, 12]] := by decide
  have hlen := h.written.length_eq
  rw [hrows] at hlen
  cases hlen

end RdmaOpera.OperaTraffic
