import Mathlib.Data.List.Nodup
import RdmaOpera.Lib.Text

/-!
# The full mesh of `opera-ll-traffic.sh`

| here | there |
| --- | --- |
| `Setup`                        | the settings `:5-45` that matter here |
| `currHostNum`                  | `${curr_host:4:2}`, of the host's name (`:8-9`) |
| `numsFrom`, `nums`             | `for (( num = start; num < bound; num += 2 ))` |
| `assignCore`                   | `assign_core` (`:47-52`) |
| `server`, `client`             | the bodies of the two loops (`:56-73`, `:82-101`), `WAIT` or not |
| `launch`, `mesh`               | what one host starts, and what all of them start |
| `connCount`                    | `conn_count` (`run_opera_experiment.sh:22`) |

Each host accepts connections from every host before it and connects to every host behind it. One
host's script only knows its own number; that any two of them agree on who listens, where, and under
which name is `FullMesh`. The number is cut out of the host's name, two characters of it, so a host
from 100 on takes itself for another one: the mesh is full exactly below 100 (`fullMesh_iff`).
-/

namespace RdmaOpera.Opera

open Lib

structure Setup where
  minHostNum : Nat
  maxHostNum : Nat
  host2ip : String → Option String
  logDir : String

inductive Kind where
  | server | client
deriving DecidableEq, Repr

/-- A process started by the script on `host`, under the numbers the script goes by; `server` is the
address a client is given. -/
structure Process where
  kind : Kind
  host : Nat
  serverNum : Nat
  clientNum : Nat
  port : String
  server : String
  flags : String
  core : Int
  logfile : String
  errfile : String
deriving DecidableEq, Repr

def commonFlag : String := "-R -U -T 4 -s 6 -n 120000 --latency_gap 1000 "
def portPrefix : String := "100"
def hostPrefix : String := "b09-"

/-- `turns` is more than the loop can take. -/
def numsFrom (bound : Nat) : Nat → Nat → List Nat
  | 0, _ => []
  | turns + 1, num => if num < bound then num :: numsFrom bound turns (num + 2) else []

def nums (start bound : Nat) : List Nat := numsFrom bound (bound - start) start

def connName (host peer : Nat) : String := toString host ++ "-" ++ toString peer

def hostName (num : Nat) : String := hostPrefix ++ toString num

/-- Two characters behind the prefix, and what the loops take them for. -/
def currHostNum (currHost : String) : Nat :=
  Nat.ofDigitChars 10 ((currHost.toList.drop 4).take 2) 0

namespace Setup
variable (s : Setup)

/-- The shell divides towards zero. -/
def assignCore (hostnum : Nat) : Int := ((hostnum : Int) - s.minHostNum).tdiv 2 + 8

def file (name ext : String) : String := s.logDir ++ "/" ++ name ++ ext

def server (host currHostNum num : Nat) : Process :=
  let port := portPrefix ++ toString num
  { kind := .server, host, serverNum := currHostNum, clientNum := num, port, server := ""
    flags := commonFlag ++ " -p " ++ port, core := s.assignCore num
    logfile := s.file (connName currHostNum num) ".log",
    errfile := s.file (connName currHostNum num) ".err" }

/-- A host that is not in the table has the empty address. -/
def client (host currHostNum num : Nat) : Process :=
  let port := portPrefix ++ toString currHostNum
  let server := (s.host2ip (hostName num)).getD ""
  { kind := .client, host, serverNum := num, clientNum := currHostNum, port, server
    flags := commonFlag ++ " -p " ++ port ++ " " ++ server, core := s.assignCore num
    logfile := s.file (connName currHostNum num) ".log",
    errfile := s.file (connName currHostNum num) ".err" }

def launch (host : Nat) : List Process :=
  let currHostNum := currHostNum (hostName host)
  (nums s.minHostNum currHostNum).map (s.server host currHostNum) ++
    (nums (currHostNum + 2) (s.maxHostNum + 1)).map (s.client host currHostNum)

/-- `min_host_num`, `min_host_num + 2`, .., `max_host_num`. -/
def hosts : List Nat := nums s.minHostNum (s.maxHostNum + 1)

def mesh : List Process := s.hosts.flatMap s.launch

/-- The table knows every host, and no two of them by the same address. -/
structure Table : Prop where
  defined : ∀ h ∈ s.hosts, (s.host2ip (hostName h)).isSome
  injective : ∀ h ∈ s.hosts, ∀ h' ∈ s.hosts, s.host2ip (hostName h) = s.host2ip (hostName h') → h = h'

end Setup

/-- The process is there for the connection between `a` and `b`. -/
def Process.joins (p : Process) (a b : Nat) : Prop :=
  p.clientNum = a ∧ p.serverNum = b ∨ p.clientNum = b ∧ p.serverNum = a

instance (p : Process) (a b : Nat) : Decidable (p.joins a b) := inferInstanceAs (Decidable (_ ∨ _))

/-- The process listens where `c` connects to. -/
def Process.serves (s : Setup) (p c : Process) : Prop :=
  p.kind = .server ∧ s.host2ip (hostName p.host) = some c.server ∧ p.port = c.port

instance (s : Setup) (p c : Process) : Decidable (p.serves s c) :=
  inferInstanceAs (Decidable (_ ∧ _))

def connCount (hostCount : Nat) : Nat := hostCount * (hostCount - 1)

structure FullMesh (s : Setup) : Prop where
  /-- one server, on the later host, and one client, on the other with the server's address and port -/
  pair : ∀ a ∈ s.hosts, ∀ b ∈ s.hosts, a < b → ∃ p q,
    (s.mesh.filter fun r => r.kind = .server ∧ r.joins a b) = [p] ∧ p.host = b ∧
    (s.mesh.filter fun r => r.kind = .client ∧ r.joins a b) = [q] ∧ q.host = a ∧
    s.host2ip (hostName b) = some q.server ∧ p.port = q.port
  /-- a client finds one server where it connects to, that of its own pair -/
  reached : ∀ q ∈ s.mesh, q.kind = .client → ∃ p, (s.mesh.filter fun r => r.serves s q) = [p] ∧
    p.joins q.clientNum q.serverNum
  ports : ∀ h ∈ s.hosts, (((s.launch h).filter fun p => p.kind = .server).map Process.port).Nodup
  cores : ∀ h ∈ s.hosts, ((s.launch h).map Process.core).Nodup
  files : (s.mesh.flatMap fun p => [p.logfile, p.errfile]).Nodup
  total : s.mesh.length = connCount s.hosts.length

/-! ## The loops -/

theorem mem_numsFrom {bound x : Nat} : ∀ (turns num : Nat), bound ≤ num + 2 * turns →
    (x ∈ numsFrom bound turns num ↔ num ≤ x ∧ x < bound ∧ (x - num) % 2 = 0)
  | 0, num, h => by
    constructor
    · intro hx
      cases hx
    · rintro ⟨h1, h2, -⟩
      omega
  | turns + 1, num, h => by
    have ih : x ∈ numsFrom bound turns (num + 2) ↔ _ := mem_numsFrom turns (num + 2) (by omega)
    rw [numsFrom]
    by_cases hlt : num < bound
    · rw [if_pos hlt, List.mem_cons, ih]
      omega
    · rw [if_neg hlt]
      constructor
      · intro hx
        cases hx
      · rintro ⟨h1, h2, -⟩
        omega

theorem mem_nums {start bound x : Nat} :
    x ∈ nums start bound ↔ start ≤ x ∧ x < bound ∧ (x - start) % 2 = 0 :=
  mem_numsFrom _ _ (by omega)

theorem pairwise_numsFrom (bound : Nat) : ∀ turns num : Nat,
    (numsFrom bound turns num).Pairwise (· < ·) ∧ ∀ x ∈ numsFrom bound turns num, num ≤ x
  | 0, num => ⟨.nil, fun _ hx => nomatch hx⟩
  | turns + 1, num => by
    obtain ⟨hpair, hle⟩ := pairwise_numsFrom bound turns (num + 2)
    rw [numsFrom]
    by_cases hlt : num < bound
    · rw [if_pos hlt]
      refine ⟨List.pairwise_cons.2 ⟨fun x hx => ?_, hpair⟩, fun x hx => ?_⟩
      · have := hle x hx
        omega
      · rcases List.mem_cons.1 hx with rfl | hx
        · exact Nat.le_refl _
        · have := hle x hx
          omega
    · rw [if_neg hlt]
      exact ⟨.nil, fun _ hx => nomatch hx⟩

theorem pairwise_nums (start bound : Nat) : (nums start bound).Pairwise (· < ·) :=
  (pairwise_numsFrom bound _ _).1

theorem nodup_nums (start bound : Nat) : (nums start bound).Nodup :=
  (pairwise_nums start bound).imp Nat.ne_of_lt

theorem length_numsFrom (bound : Nat) : ∀ turns num : Nat, bound ≤ num + 2 * turns →
    (numsFrom bound turns num).length = (bound - num + 1) / 2
  | 0, num, h => by
    rw [numsFrom, List.length_nil]
    omega
  | turns + 1, num, h => by
    rw [numsFrom]
    by_cases hlt : num < bound
    · rw [if_pos hlt, List.length_cons, length_numsFrom bound turns (num + 2) (by omega)]
      omega
    · rw [if_neg hlt, List.length_nil]
      omega

theorem length_nums (start bound : Nat) : (nums start bound).length = (bound - start + 1) / 2 :=
  length_numsFrom bound _ _ (by omega)

/-! ## The number in a name -/

theorem drop_hostName (h : Nat) : (hostName h).toList.drop 4 = Nat.toDigits 10 h := by
  have happend : (hostName h).toList = hostPrefix.toList ++ Nat.toDigits 10 h := by
    rw [hostName, String.toList_append]
    exact congrArg _ Nat.toList_repr
  rw [happend]
  exact List.drop_left' rfl

/-- With at most two digits a host takes itself for what it is. -/
theorem currHostNum_hostName {h : Nat} (hlt : h < 100) : currHostNum (hostName h) = h := by
  have hlen : (Nat.toDigits 10 h).length ≤ 2 :=
    (Nat.length_toDigits_le_iff (by decide) (by decide)).2 hlt
  rw [currHostNum, drop_hostName, List.take_of_length_le hlen, Nat.ofDigitChars_ten_toDigits]

/-- More than two digits it never takes itself for. -/
theorem currHostNum_lt (h : Nat) : currHostNum (hostName h) < 100 := by
  have hdigits : ∀ c ∈ (Nat.toDigits 10 h).take 2, c.isDigit :=
    fun c hc => Nat.isDigit_of_mem_toDigits (by decide) (by decide) (List.mem_of_mem_take hc)
  rw [currHostNum, drop_hostName]
  calc Nat.ofDigitChars 10 ((Nat.toDigits 10 h).take 2) 0
      < (0 + 1) * 10 ^ ((Nat.toDigits 10 h).take 2).length := ofDigitChars_lt _ hdigits 0
    _ ≤ (0 + 1) * 10 ^ 2 :=
      Nat.mul_le_mul_left _ (Nat.pow_le_pow_right (by decide) (List.length_take_le 2 _))

/-! ## One host -/

namespace Setup
variable {s : Setup} {h : Nat}

theorem mem_hosts {x : Nat} :
    x ∈ s.hosts ↔ s.minHostNum ≤ x ∧ x ≤ s.maxHostNum ∧ (x - s.minHostNum) % 2 = 0 := by
  rw [hosts, mem_nums, Nat.lt_succ_iff]

/-- The hosts a host has a connection with, in the order its script comes to them. -/
def peers (s : Setup) (h : Nat) : List Nat := nums s.minHostNum h ++ nums (h + 2) (s.maxHostNum + 1)

/-- The process on `h` for the connection with `num`, when `h` goes by its own number. -/
def start (s : Setup) (h num : Nat) : Process :=
  if num < h then s.server h h num else s.client h h num

theorem start_of_lt {num : Nat} (hlt : num < h) : s.start h num = s.server h h num := if_pos hlt

theorem start_of_gt {num : Nat} (hlt : h < num) : s.start h num = s.client h h num :=
  if_neg (Nat.lt_asymm hlt)

theorem launch_eq (hsmall : h < 100) : s.launch h = (s.peers h).map (s.start h) := by
  simp only [launch, currHostNum_hostName hsmall]
  rw [peers, List.map_append]
  congr 1
  · refine List.map_congr_left fun num hnum => ?_
    exact (start_of_lt (mem_nums.1 hnum).2.1).symm
  · refine List.map_congr_left fun num hnum => ?_
    have := (mem_nums.1 hnum).1
    exact (start_of_gt (by omega)).symm

/-- Every other host is a peer. -/
theorem mem_peers (hh : h ∈ s.hosts) {num : Nat} : num ∈ s.peers h ↔ num ∈ s.hosts ∧ num ≠ h := by
  rw [mem_hosts] at hh ⊢
  rw [peers, List.mem_append, mem_nums, mem_nums]
  omega

theorem pairwise_peers (s : Setup) (h : Nat) : (s.peers h).Pairwise (· < ·) := by
  refine List.pairwise_append.2 ⟨pairwise_nums _ _, pairwise_nums _ _, fun x hx y hy => ?_⟩
  rw [mem_nums] at hx hy
  omega

theorem nodup_peers (s : Setup) (h : Nat) : (s.peers h).Nodup :=
  (s.pairwise_peers h).imp Nat.ne_of_lt

theorem length_peers (hh : h ∈ s.hosts) : (s.peers h).length = s.hosts.length - 1 := by
  rw [mem_hosts] at hh
  rw [peers, List.length_append, length_nums, length_nums, hosts, length_nums]
  omega

@[simp] theorem host_start (num : Nat) : (s.start h num).host = h := by
  unfold start
  split <;> rfl

@[simp] theorem core_start (num : Nat) : (s.start h num).core = s.assignCore num := by
  unfold start
  split <;> rfl

@[simp] theorem logfile_start (num : Nat) :
    (s.start h num).logfile = s.file (connName h num) ".log" := by
  unfold start
  split <;> rfl

@[simp] theorem errfile_start (num : Nat) :
    (s.start h num).errfile = s.file (connName h num) ".err" := by
  unfold start
  split <;> rfl

/-- The servers of one host listen on different ports. -/
theorem nodup_ports (s : Setup) (h : Nat) :
    (((s.launch h).filter fun p => p.kind = .server).map Process.port).Nodup := by
  have hservers : (s.launch h).filter (fun p => p.kind = .server) =
    (nums s.minHostNum (currHostNum (hostName h))).map (s.server h (currHostNum (hostName h))) := by
    rw [launch, List.filter_append, List.filter_eq_self.2, List.filter_eq_nil_iff.2,
      List.append_nil]
    · intro p hp
      obtain ⟨num, -, rfl⟩ := List.mem_map.1 hp
      simp [client]
    · intro p hp
      obtain ⟨num, -, rfl⟩ := List.mem_map.1 hp
      simp [server]
  rw [hservers, List.map_map]
  refine (nodup_nums _ _).map fun num num' heq => ?_
  have heq : portPrefix ++ toString num = portPrefix ++ toString num' := heq
  exact toString_inj.1 ((String.append_right_inj portPrefix).1 heq)

/-- Its processes get different cores. -/
theorem nodup_cores (hh : h ∈ s.hosts) (hsmall : h < 100) :
    ((s.launch h).map Process.core).Nodup := by
  rw [launch_eq hsmall, List.map_map, List.Nodup, List.pairwise_map]
  refine (s.pairwise_peers h).imp_of_mem fun {x y} hx hy hlt => ?_
  have hx := mem_hosts.1 ((mem_peers hh).1 hx).1
  have hy := mem_hosts.1 ((mem_peers hh).1 hy).1
  simp only [Function.comp_apply, core_start, assignCore]
  rw [Int.tdiv_eq_ediv_of_nonneg (by omega), Int.tdiv_eq_ediv_of_nonneg (by omega)]
  omega

/-! ## All hosts -/

theorem connName_inj {h num h' num' : Nat} :
    connName h num = connName h' num' ↔ h = h' ∧ num = num' := by
  rw [← String.toList_inj]
  simp only [connName, String.toList_append]
  rw [show "-".toList = ['-'] from rfl, List.append_assoc, List.append_assoc]
  exact numerals_inj (by decide)

theorem file_inj {name name' ext : String} : s.file name ext = s.file name' ext ↔ name = name' := by
  rw [file, file, String.append_left_inj, String.append_right_inj]

theorem log_ne_err (name name' : String) : s.file name ".log" ≠ s.file name' ".err" := by
  intro heq
  have hlist : (s.logDir ++ "/" ++ name).toList ++ ".log".toList =
    (s.logDir ++ "/" ++ name').toList ++ ".err".toList := by
    rw [← String.toList_append, ← String.toList_append]
    exact congrArg String.toList heq
  exact absurd (List.append_inj' hlist (by decide)).2 (by decide)

/-- A host and a peer of it, for every process. -/
def pairs (s : Setup) : List (Nat × Nat) := s.hosts.flatMap fun h => (s.peers h).map (Prod.mk h)

theorem mem_pairs {x : Nat × Nat} : x ∈ s.pairs ↔ x.1 ∈ s.hosts ∧ x.2 ∈ s.hosts ∧ x.2 ≠ x.1 := by
  rw [pairs, List.mem_flatMap]
  constructor
  · rintro ⟨h, hh, hx⟩
    obtain ⟨num, hnum, rfl⟩ := List.mem_map.1 hx
    exact ⟨hh, (mem_peers hh).1 hnum⟩
  · rintro ⟨hh, hnum⟩
    exact ⟨x.1, hh, List.mem_map.2 ⟨x.2, (mem_peers hh).2 hnum, rfl⟩⟩

theorem nodup_pairs (s : Setup) : s.pairs.Nodup := by
  refine List.nodup_flatMap.2 ⟨fun h _ => (s.nodup_peers h).map
    fun _ _ heq => (Prod.mk.inj heq).2, ?_⟩
  refine (nodup_nums _ _).imp fun {h h'} hne x hx hx' => ?_
  obtain ⟨num, -, rfl⟩ := List.mem_map.1 hx
  obtain ⟨num', -, heq⟩ := List.mem_map.1 hx'
  exact hne (Prod.mk.inj heq).1.symm

theorem client_server (ht : s.Table) {b : Nat} (hb : b ∈ s.hosts) (a a' : Nat) :
    s.host2ip (hostName b) = some (s.client a a' b).server := by
  obtain ⟨ip, hip⟩ := Option.isSome_iff_exists.1 (ht.defined b hb)
  rw [client, hip]
  rfl

section small
variable (hsmall : ∀ h ∈ s.hosts, h < 100)
include hsmall

theorem mesh_eq : s.mesh = s.pairs.map fun x => s.start x.1 x.2 := by
  rw [mesh, pairs, List.map_flatMap]
  refine List.flatMap_congr fun h hh => ?_
  rw [launch_eq (hsmall h hh), List.map_map]
  rfl

theorem mem_mesh {p : Process} :
    p ∈ s.mesh ↔ ∃ h ∈ s.hosts, ∃ num ∈ s.hosts, num ≠ h ∧ p = s.start h num := by
  rw [mesh_eq hsmall, List.mem_map]
  constructor
  · rintro ⟨x, hx, rfl⟩
    obtain ⟨h1, h2, hne⟩ := mem_pairs.1 hx
    exact ⟨x.1, h1, x.2, h2, hne, rfl⟩
  · rintro ⟨h, hh, num, hnum, hne, rfl⟩
    exact ⟨(h, num), mem_pairs.2 ⟨hh, hnum, hne⟩, rfl⟩

theorem nodup_mesh : s.mesh.Nodup := by
  rw [mesh_eq hsmall]
  refine s.nodup_pairs.map fun x y heq => ?_
  have hlog := congrArg Process.logfile heq
  rw [logfile_start, logfile_start, file_inj, connName_inj] at hlog
  exact Prod.ext hlog.1 hlog.2

/-- No two files of the whole mesh have the same name. -/
theorem nodup_files : (s.mesh.flatMap fun p => [p.logfile, p.errfile]).Nodup := by
  rw [mesh_eq hsmall, List.flatMap_map]
  simp only [logfile_start, errfile_start]
  refine List.nodup_flatMap.2 ⟨fun x _ => by simp [log_ne_err], s.nodup_pairs.imp fun {x y} hne f hf hf' => ?_⟩
  have hname : connName x.1 x.2 ≠ connName y.1 y.2 :=
    fun heq => hne (Prod.ext (connName_inj.1 heq).1 (connName_inj.1 heq).2)
  simp only [List.mem_cons, List.not_mem_nil, or_false] at hf hf'
  rcases hf with rfl | rfl <;> rcases hf' with heq | heq
  · exact hname (file_inj.1 heq)
  · exact log_ne_err _ _ heq
  · exact log_ne_err _ _ heq.symm
  · exact hname (file_inj.1 heq)

theorem length_mesh : s.mesh.length = connCount s.hosts.length := by
  have hlaunch : ∀ h ∈ s.hosts, (s.launch h).length = s.hosts.length - 1 := by
    intro h hh
    rw [launch_eq (hsmall h hh), List.length_map, length_peers hh]
  rw [mesh, List.length_flatMap, List.map_congr_left hlaunch, List.map_const',
    List.sum_replicate_nat, connCount]

/-- The only member of the mesh that satisfies a test. -/
theorem filter_mesh {p : Process} (hp : p ∈ s.mesh) {f : Process → Bool}
    (hf : ∀ h ∈ s.hosts, ∀ num ∈ s.hosts, num ≠ h → (f (s.start h num) = true ↔ s.start h num = p)) :
    s.mesh.filter f = [p] := by
  have hcongr : s.mesh.filter f = s.mesh.filter (· = p) := by
    refine List.filter_congr fun q hq => ?_
    obtain ⟨h, hh, num, hnum, hne, rfl⟩ := (mem_mesh hsmall).1 hq
    rw [Bool.eq_iff_iff, hf h hh num hnum hne, decide_eq_true_iff]
  rw [hcongr, List.filter_eq, List.count_eq_one_of_mem (nodup_mesh hsmall) hp]
  rfl

section pair
variable (ht : s.Table) {a b : Nat} (ha : a ∈ s.hosts) (hb : b ∈ s.hosts) (hlt : a < b)
include ha hb hlt

theorem server_mem : s.server b b a ∈ s.mesh :=
  (mem_mesh hsmall).2 ⟨b, hb, a, ha, Nat.ne_of_lt hlt, (start_of_lt hlt).symm⟩

theorem client_mem : s.client a a b ∈ s.mesh :=
  (mem_mesh hsmall).2 ⟨a, ha, b, hb, Nat.ne_of_gt hlt, (start_of_gt hlt).symm⟩

theorem filter_server :
    (s.mesh.filter fun r => r.kind = .server ∧ r.joins a b) = [s.server b b a] := by
  refine filter_mesh hsmall (server_mem hsmall ha hb hlt) fun h _ num _ hne => ?_
  rw [decide_eq_true_iff]
  rcases Nat.lt_or_gt_of_ne hne with hnum | hnum
  · rw [start_of_lt hnum]
    constructor
    · rintro ⟨-, ⟨rfl, rfl⟩ | ⟨rfl, rfl⟩⟩
      · rfl
      · exact absurd hlt (Nat.lt_asymm hnum)
    · intro heq
      rw [heq]
      exact ⟨rfl, .inl ⟨rfl, rfl⟩⟩
  · rw [start_of_gt hnum]
    exact ⟨fun hk => Kind.noConfusion hk.1, fun heq => Kind.noConfusion (congrArg Process.kind heq)⟩

theorem filter_client :
    (s.mesh.filter fun r => r.kind = .client ∧ r.joins a b) = [s.client a a b] := by
  refine filter_mesh hsmall (client_mem hsmall ha hb hlt) fun h _ num _ hne => ?_
  rw [decide_eq_true_iff]
  rcases Nat.lt_or_gt_of_ne hne with hnum | hnum
  · rw [start_of_lt hnum]
    exact ⟨fun hk => Kind.noConfusion hk.1, fun heq => Kind.noConfusion (congrArg Process.kind heq)⟩
  · rw [start_of_gt hnum]
    constructor
    · rintro ⟨-, ⟨rfl, rfl⟩ | ⟨rfl, rfl⟩⟩
      · rfl
      · exact absurd hlt (Nat.lt_asymm hnum)
    · intro heq
      rw [heq]
      exact ⟨rfl, .inl ⟨rfl, rfl⟩⟩

include ht

/-- Only the server of the pair listens where the client connects to. -/
theorem filter_serves :
    (s.mesh.filter fun r => r.serves s (s.client a a b)) = [s.server b b a] := by
  refine filter_mesh hsmall (server_mem hsmall ha hb hlt) fun h hh num _ hne => ?_
  rw [decide_eq_true_iff]
  rcases Nat.lt_or_gt_of_ne hne with hnum | hnum
  · rw [start_of_lt hnum]
    constructor
    · rintro ⟨-, hip, hport⟩
      obtain rfl := ht.injective h hh b hb (hip.trans (client_server ht hb a a).symm)
      have hport : portPrefix ++ toString num = portPrefix ++ toString a := hport
      rw [toString_inj.1 ((String.append_right_inj portPrefix).1 hport)]
    · intro heq
      rw [heq]
      exact ⟨rfl, client_server ht hb a a, rfl⟩
  · rw [start_of_gt hnum]
    exact ⟨fun hk => Kind.noConfusion hk.1, fun heq => Kind.noConfusion (congrArg Process.kind heq)⟩

end pair

end small

/-- The numbers a server goes by are two it has cut out of names. -/
theorem server_small {p : Process} (hp : p ∈ s.mesh) (hkind : p.kind = .server) :
    p.serverNum < 100 ∧ p.clientNum < 100 := by
  obtain ⟨h, -, hp⟩ := List.mem_flatMap.1 hp
  rw [launch, List.mem_append] at hp
  have hlt := currHostNum_lt h
  rcases hp with hp | hp
  · obtain ⟨num, hnum, rfl⟩ := List.mem_map.1 hp
    exact ⟨hlt, Nat.lt_trans (mem_nums.1 hnum).2.1 hlt⟩
  · obtain ⟨num, -, rfl⟩ := List.mem_map.1 hp
    cases hkind

/-- So there is none for a host from 100 on. -/
theorem filter_large {a b : Nat} (hlarge : 100 ≤ a ∨ 100 ≤ b) :
    (s.mesh.filter fun r => r.kind = .server ∧ r.joins a b) = [] := by
  refine List.filter_eq_nil_iff.2 fun p hp hjoins => ?_
  rw [decide_eq_true_iff] at hjoins
  obtain ⟨hserver, hclient⟩ := server_small hp hjoins.1
  rcases hjoins.2 with ⟨rfl, rfl⟩ | ⟨rfl, rfl⟩ <;> omega

/-- From 100 on a host has somebody behind it, itself if nobody else. -/
theorem mesh_ne_nil (hh : h ∈ s.hosts) (hlarge : 100 ≤ h) : s.mesh ≠ [] := by
  have hself : currHostNum (hostName h) + 2 ≤ h := by
    have hlt := currHostNum_lt h
    rcases Nat.eq_or_lt_of_le hlarge with rfl | hgt
    · decide
    · omega
  have hpeer : currHostNum (hostName h) + 2 ∈
      nums (currHostNum (hostName h) + 2) (s.maxHostNum + 1) := by
    have := (mem_hosts.1 hh).2.1
    exact mem_nums.2 ⟨Nat.le_refl _, by omega, by omega⟩
  exact List.ne_nil_of_mem (List.mem_flatMap.2 ⟨h, hh,
    List.mem_append_right _ (List.mem_map_of_mem hpeer)⟩)

end Setup

/-- With host numbers of at most two digits the scripts of all hosts together start one connection
for every pair of them. -/
theorem fullMesh_of_small {s : Setup} (ht : s.Table) (hsmall : ∀ h ∈ s.hosts, h < 100) :
    FullMesh s where
  pair a ha b hb hlt :=
    ⟨s.server b b a, s.client a a b, Setup.filter_server hsmall ha hb hlt, rfl,
    Setup.filter_client hsmall ha hb hlt, rfl,
    Setup.client_server ht hb a a, rfl⟩
  reached q hq hkind := by
    obtain ⟨h, hh, num, hnum, hne, rfl⟩ := (Setup.mem_mesh hsmall).1 hq
    rcases Nat.lt_or_gt_of_ne hne with hlt | hlt
    · rw [Setup.start_of_lt hlt] at hkind
      cases hkind
    · rw [Setup.start_of_gt hlt]
      exact ⟨s.server num num h, Setup.filter_serves hsmall ht hh hnum hlt, .inl ⟨rfl, rfl⟩⟩
  ports h _ := s.nodup_ports h
  cores h hh := Setup.nodup_cores hh (hsmall h hh)
  files := Setup.nodup_files hsmall
  total := Setup.length_mesh hsmall

/-- With a wider one they never do: no server is there for its connections, and where it is the only
host it still starts clients. -/
theorem fullMesh_small {s : Setup} (hmesh : FullMesh s) : ∀ h ∈ s.hosts, h < 100 := by
  intro h hh
  by_contra hlarge
  have hlarge := Nat.le_of_not_lt hlarge
  by_cases hother : ∃ h' ∈ s.hosts, h' ≠ h
  · obtain ⟨h', hh', hne⟩ := hother
    rcases Nat.lt_or_gt_of_ne hne with hlt | hlt
    · obtain ⟨p, q, hserver, -⟩ := hmesh.pair h' hh' h hh hlt
      rw [Setup.filter_large (.inr hlarge)] at hserver
      cases hserver
    · obtain ⟨p, q, hserver, -⟩ := hmesh.pair h hh h' hh' hlt
      rw [Setup.filter_large (.inl hlarge)] at hserver
      cases hserver
  · have hone : s.hosts.length = 1 := by
      have hall : ∀ x ∈ s.hosts, x = h := fun x hx => by_contra fun hne => hother ⟨x, hx, hne⟩
      have hlen : s.hosts.length ≤ 1 := by
        have hnodup : s.hosts.Nodup := nodup_nums _ _
        rwa [List.eq_replicate_of_mem hall, List.nodup_replicate] at hnodup
      have := List.length_pos_of_mem hh
      omega
    have htotal := hmesh.total
    rw [hone] at htotal
    exact Setup.mesh_ne_nil hh hlarge (List.length_eq_zero_iff.1 htotal)

/-- **Full mesh.** Whatever the range of host numbers, the scripts of all hosts together start one
connection for every pair of them exactly if no number has more than two digits. -/
theorem fullMesh_iff (s : Setup) (ht : s.Table) : FullMesh s ↔ ∀ h ∈ s.hosts, h < 100 :=
  ⟨fullMesh_small, fullMesh_of_small ht⟩

/-- The hosts are `(max - min) / 2 + 1`. -/
theorem length_hosts (s : Setup) (hle : s.minHostNum ≤ s.maxHostNum) :
    s.hosts.length = (s.maxHostNum - s.minHostNum) / 2 + 1 := by
  rw [Setup.hosts, length_nums]
  omega

/-- The script's own eight hosts. -/
def operaSetup : Setup where
  minHostNum := 30
  maxHostNum := 44
  host2ip name := [("b09-40", "10.0.0.1"), ("b09-38", "10.0.0.2"), ("b09-44", "10.0.0.3"),
    ("b09-42", "10.0.0.4"),
    ("b09-34", "10.0.0.5"), ("b09-36", "10.0.0.6"), ("b09-30", "10.0.0.7"),
      ("b09-32", "10.0.0.8")].lookup name
  logDir := "opera.logs"

theorem fullMesh_iff_operaSetup : FullMesh operaSetup :=
  (fullMesh_iff operaSetup ⟨by decide, by decide⟩).2 (by decide)

/-- Two hosts, of three digits each. -/
def wideSetup : Setup where
  minHostNum := 100
  maxHostNum := 102
  host2ip name := [("b09-100", "10.0.0.1"), ("b09-102", "10.0.0.2")].lookup name
  logDir := "opera.logs"

/-- Both take themselves for host 10, nobody listens, and 92 clients are started where the experiment
waits for 2 processes. -/
theorem fullMesh_counterexample :
    wideSetup.minHostNum ≤ wideSetup.maxHostNum ∧
    wideSetup.minHostNum % 2 = wideSetup.maxHostNum % 2 ∧ wideSetup.Table ∧
    (∀ p ∈ wideSetup.mesh, p.kind = .client) ∧ wideSetup.mesh.length = 92 ∧
    connCount wideSetup.hosts.length = 2 ∧ ¬ FullMesh wideSetup := by
  have hlength : wideSetup.mesh.length = 92 := by decide
  refine ⟨by decide, by decide, ⟨by decide, by decide⟩, by decide, hlength, by decide, fun hmesh => ?_⟩
  have htotal := hmesh.total
  rw [hlength] at htotal
  exact absurd htotal (by decide)

end RdmaOpera.Opera
