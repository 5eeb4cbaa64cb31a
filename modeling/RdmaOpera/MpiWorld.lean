import RdmaOpera.Lib.Matching
import RdmaOpera.Lib.Range
import RdmaOpera.Lib.System
import RdmaOpera.MpiMain

/-!
# The ranks of one communicator

The environment of `mpi_exec`. It does what the MPI standard says of the calls, all of them on tag
0:

| here | there |
| --- | --- |
| `World.answer`      | what a call answers, and `none` while it blocks |
| `.pair`             | the oldest unmatched message of `s` to `d` is matched with the oldest unmatched receive (non-overtaking) |
| `.read`             | MPI reads a message out of the sender's buffer, at any time after `MPI_Isend`; a freed one holds any bytes |
| `.deliver`          | a matched message that has been read out arrives, in any order |
| `MPI_Send`          | a short message is buffered: the call does not wait |
| a negative count    | the call fails, and the default error handler ends the job: no answer |
| a negative handle   | it lies below the array of requests, nothing is said from there on: no answer |

A message longer than its receive is an error as well, and so is one that arrives in a freed buffer.
The buffer of a rank is a function of the offset; nothing bounds it.
-/

namespace RdmaOpera.MpiExec

open Lib Prog

/-- Where a message comes from or goes to: a block of `buf`, or an array on the stack. -/
inductive Place where
  | block (r : Range)
  | array (length : Nat)
deriving DecidableEq, Repr

def Place.length : Place → Nat
  | .block r => r.len
  | .array length => length

/-- `xs` to the end of the `host`-th list. -/
def post {α : Type} (f : Nat → List α) (host : Nat) (x : α) : Nat → List α :=
  Function.update f host (f host ++ [x])

theorem post_apply {α : Type} (f : Nat → List α) (host : Nat) (x : α) (h : Nat) :
    post f host x h = if h = host then f h ++ [x] else f h := by
  by_cases heq : h = host
  · subst heq
    simp [post]
  · simp [post, heq]

/-- What one rank has done so far. `requests` is the array of `recv_messages`, and a receive is
named by its source and its number; `complete` are those an answer has said to be complete. -/
structure Local where
  sends : Nat → List Place := fun _ => []
  recvs : Nat → List Place := fun _ => []
  requests : Int → Option (Nat × Nat) := fun _ => none
  waiting : Option (Nat × Nat) := none
  complete : List (Nat × Nat) := []
  barriers : Nat := 0
  loaded : Option (List UInt8) := none

def Local.upd (l : Local) : (op : MOp) → MOp.Ans op → Local
  | .barrierEnter, _ => { l with barriers := l.barriers + 1 }
  | .isend offset length dest _, _ =>
    { l with sends := post l.sends dest (.block ⟨offset, length.toNat⟩) }
  | .irecv offset length src request, _ =>
    { l with
      recvs := post l.recvs src (.block ⟨offset, length.toNat⟩)
      requests := Function.update l.requests request (some (src, (l.recvs src).length)) }
  | .testall totalCount, _ =>
    { l with
      complete := l.complete ++ (List.range totalCount.toNat).filterMap fun i : Nat => l.requests i }
  | .send data dest, _ => { l with sends := post l.sends dest (.array data.length) }
  | .recvPost length src, _ =>
    { l with recvs := post l.recvs src (.array length), waiting := some (src, (l.recvs src).length) }
  | .recvWait, _ => { l with complete := l.complete ++ l.waiting.toList }
  | .load _, bytes => { l with loaded := some bytes }
  | _, _ => l

/-! ## Memory -/

/-- The bytes of a block. -/
def bytesAt (mem : Nat → UInt8) (r : Range) : List UInt8 :=
  (List.range r.len).map fun i => mem (r.base + i)

def writeAt (mem : Nat → UInt8) (offset : Nat) (bytes : List UInt8) : Nat → UInt8 :=
  fun a => if offset ≤ a then bytes.getD (a - offset) (mem a) else mem a

@[simp] theorem length_bytesAt (mem : Nat → UInt8) (r : Range) : (bytesAt mem r).length = r.len := by
  simp [bytesAt]

/-! ## The environment -/

/-- `pairs` by sender and receiver; `read` and `got` by sender, receiver and number: what has been
read out of a message, and what has arrived at a receive. -/
structure World where
  loc : Nat → Local := fun _ => {}
  pairs : Nat × Nat → List (Nat × Nat) := fun _ => []
  read : Nat × Nat × Nat → Option (List UInt8) := fun _ => none
  got : Nat × Nat × Nat → Option (List UInt8) := fun _ => none
  mem : Nat → Nat → UInt8
  freed : Nat → Bool := fun _ => false

/-- The clock, and what `malloc_random` returns. -/
structure Hint where
  cycles : UInt64 := 0
  fresh : Option (Nat → UInt8) := some fun _ => 0

inductive Tick where
  | pair (s d : Nat)
  | read (s d k : Nat) (seen : Nat → UInt8 := fun _ => 0)
  | deliver (s d k : Nat)

namespace World

/-- `MPI_Testall` finds these requests complete. -/
def tested (w : World) (r : Nat) (total : Nat) : Prop :=
  ∀ i < total, ((w.loc r).requests i).any fun x => (w.got (x.1, r, x.2)).isSome

instance (w : World) (r total : Nat) : Decidable (w.tested r total) := by
  unfold tested; infer_instance

def answer (w : World) (size : Nat) (hint : Hint) (r : Nat) : (op : MOp) → Option (MOp.Ans op)
  | .barrierLeave => if ∀ q < size, (w.loc r).barriers ≤ (w.loc q).barriers then some () else none
  | .isend _ length _ request => if 0 ≤ length ∧ 0 ≤ request then some () else none
  | .irecv _ length _ request => if 0 ≤ length ∧ 0 ≤ request then some () else none
  | .testall totalCount => if 0 ≤ totalCount ∧ w.tested r totalCount.toNat then some () else none
  | .recvWait => (w.loc r).waiting.bind fun x => w.got (x.1, r, x.2)
  | .mallocRandom _ => some hint.fresh.isSome
  | .load length => some (bytesAt (w.mem r) ⟨0, length⟩)
  | .getCycles => some hint.cycles
  | .barrierEnter | .requestFree _ | .send _ _ | .recvPost _ _ | .store _ _ | .free
  | .logError _ | .logRound _ _ _ _ _ => some ()

/-- What a call does to messages and memory. -/
def effect (w : World) (hint : Hint) (r : Nat) : MOp → World
  | .send data dest =>
    { w with read := Function.update w.read (r, dest, ((w.loc r).sends dest).length) (some data) }
  | .mallocRandom _ => match hint.fresh with
    | some bytes =>
      { w with mem := Function.update w.mem r bytes, freed := Function.update w.freed r false }
    | none => w
  | .store offset bytes =>
    { w with mem := Function.update w.mem r (writeAt (w.mem r) offset bytes) }
  | .free => { w with freed := Function.update w.freed r true }
  | _ => w

def called (w : World) (hint : Hint) (r : Nat) (op : MOp) (a : MOp.Ans op) : World :=
  { w.effect hint r op with loc := Function.update w.loc r ((w.loc r).upd op a) }

/-- Bytes arrive at a receive. -/
def arrive (w : World) (s d j : Nat) (bytes : List UInt8) : Place → World
  | .block r =>
    { w with
      got := Function.update w.got (s, d, j) (some bytes)
      mem := Function.update w.mem d (writeAt (w.mem d) r.base bytes) }
  | .array _ => { w with got := Function.update w.got (s, d, j) (some bytes) }

/-- What MPI reads out of the buffer of a rank; `seen` is what has become of a freed one. -/
def visible (w : World) (r : Nat) (seen : Nat → UInt8) : Nat → UInt8 :=
  if w.freed r then seen else w.mem r

/-- The place is not a block of a freed buffer. -/
def usable (w : World) (r : Nat) : Place → Bool
  | .block _ => !w.freed r
  | .array _ => true

def tick (w : World) : Tick → Option World
  | .pair s d =>
    (matchNext ((w.loc s).sends d).length ((w.loc d).recvs s).length (w.pairs (s, d))).map fun pairs =>
      { w with pairs := Function.update w.pairs (s, d) pairs }
  | .read s d k seen => match ((w.loc s).sends d)[k]?, w.read (s, d, k) with
    | some (.block r), none =>
      some { w with read := Function.update w.read (s, d, k) (some (bytesAt (w.visible s seen) r)) }
    | _, _ => none
  | .deliver s d k => (w.pairs (s, d))[k]?.bind fun x =>
    match w.read (s, d, x.1), w.got (s, d, x.2), ((w.loc d).recvs s)[x.2]? with
    | some bytes, none, some place =>
      if bytes.length ≤ place.length ∧ w.usable d place then some (w.arrive s d x.2 bytes place) else none
    | _, _, _ => none

end World

/-- The environment of the `size` ranks. -/
def mpi (size : Nat) : Env Mpi (Fin size) where
  St := World
  Hint := Hint
  Tick := Tick
  act hint r op w := (w.answer size hint r op).map fun a => (a, w.called hint r op a)
  tick t w := w.tick t

/-- Any step. -/
def AnyMpiStep {size : Nat} (_ : Label (mpi size)) (_ : World) : Prop := True

/-- All ranks before their first call. -/
def launch {α : Type} {size : Nat} (mem : Nat → Nat → UInt8) (prog : Fin size → MProg α) :
    Conf (mpi size) α := ⟨({ mem } : World), prog⟩

/-! ## What a step leaves alone -/

namespace World

variable {w w' : World} {size : Nat} {hint : Hint} {r : Nat} {op : MOp}

/-- A length and a handle that are not refused, or a count. -/
def Valid : MOp → Prop
  | .isend _ length _ request | .irecv _ length _ request => 0 ≤ length ∧ 0 ≤ request
  | .testall totalCount => 0 ≤ totalCount
  | _ => True

theorem valid_of_answer {a : MOp.Ans op} (ha : w.answer size hint r op = some a) : Valid op := by
  cases op with
  | isend | irecv =>
    simp only [World.answer] at ha
    split at ha
    · rename_i hvalid
      exact hvalid
    · cases ha
  | testall totalCount =>
    simp only [World.answer] at ha
    split at ha
    · rename_i htest
      exact htest.1
    · cases ha
  | _ => trivial

theorem called_loc (w : World) (hint : Hint) (r : Nat) (op : MOp) (a : MOp.Ans op) (q : Nat) :
    (w.called hint r op a).loc q = if q = r then (w.loc r).upd op a else w.loc q := by
  show Function.update w.loc r _ q = _
  rw [Function.update_apply]

theorem called_pairs (w : World) (hint : Hint) (r : Nat) (op : MOp) (a : MOp.Ans op) :
    (w.called hint r op a).pairs = w.pairs := by
  cases op with
  | mallocRandom size => cases hf : hint.fresh <;> simp [called, effect, hf]
  | _ => rfl

/-- What arrives is noted, and perhaps written to memory. -/
theorem arrive_eq (w : World) (s d j : Nat) (bytes : List UInt8) (place : Place) :
    (w.arrive s d j bytes place).loc = w.loc ∧
    (w.arrive s d j bytes place).pairs = w.pairs ∧ (w.arrive s d j bytes place).read = w.read ∧
    (w.arrive s d j bytes place).got = Function.update w.got (s, d, j) (some bytes) := by
  cases place <;> exact ⟨rfl, rfl, rfl, rfl⟩

theorem visible_of_live {seen : Nat → UInt8} (h : w.freed r = false) : w.visible r seen = w.mem r := by
  rw [visible, h]
  rfl

/-- What a tick can do. -/
inductive Ticked (w : World) : Tick → World → Prop where
  | pair {s d : Nat} {pairs : List (Nat × Nat)}
      (hpairs : matchNext ((w.loc s).sends d).length ((w.loc d).recvs s).length (w.pairs (s, d)) = some pairs) :
      Ticked w (.pair s d) { w with pairs := Function.update w.pairs (s, d) pairs }
  | read {s d k : Nat} {seen : Nat → UInt8} {b : Range}
    (hplace : ((w.loc s).sends d)[k]? = some (.block b)) (hread : w.read (s, d, k) = none) :
      Ticked w (.read s d k seen)
        { w with read := Function.update w.read (s, d, k) (some (bytesAt (w.visible s seen) b)) }
  | deliver {s d k : Nat} {x : Nat × Nat} {bytes : List UInt8} {place : Place}
    (hx : (w.pairs (s, d))[k]? = some x)
      (hread : w.read (s, d, x.1) = some bytes) (hgot : w.got (s, d, x.2) = none)
      (hplace : ((w.loc d).recvs s)[x.2]? = some place) (hfits : bytes.length ≤ place.length)
        (hlive : w.usable d place) :
      Ticked w (.deliver s d k) (w.arrive s d x.2 bytes place)

theorem tick_cases {t : Tick} (ht : w.tick t = some w') : w.Ticked t w' := by
  cases t with
  | pair s d =>
    obtain ⟨pairs, hpairs, rfl⟩ := Option.map_eq_some_iff.1 ht
    exact .pair hpairs
  | read s d k seen =>
    simp only [tick] at ht
    split at ht
    · rename_i b hplace hread
      cases ht
      exact .read hplace hread
    · cases ht
  | deliver s d k =>
    obtain ⟨x, hx, ht⟩ := Option.bind_eq_some_iff.1 ht
    split at ht
    · rename_i bytes place hread hgot hplace
      split at ht
      · rename_i hlive
        cases ht
        exact .deliver hx hread hgot hplace hlive.1 hlive.2
      · cases ht
    · cases ht

theorem tick_loc {t : Tick} (ht : w.tick t = some w') : w'.loc = w.loc := by
  cases tick_cases ht with
  | pair _ => rfl
  | read _ _ => rfl
  | deliver _ _ _ _ _ _ => exact (arrive_eq w _ _ _ _ _).1

/-- The pairs stay, or there is one more. -/
theorem tick_pairs {t : Tick} (ht : w.tick t = some w') (s d : Nat) :
    w'.pairs (s, d) = w.pairs (s, d) ∨
    matchNext ((w.loc s).sends d).length ((w.loc d).recvs s).length (w.pairs (s, d)) =
      some (w'.pairs (s, d)) := by
  cases tick_cases ht with
  | @pair s' d' pairs hpairs =>
    by_cases heq : (s, d) = (s', d')
    · cases heq
      right
      show _ = some (Function.update w.pairs (s, d) pairs (s, d))
      rw [Function.update_self]
      exact hpairs
    · exact .inl (Function.update_of_ne heq _ _)
  | read _ _ => exact .inl rfl
  | deliver _ _ _ _ _ _ => exact .inl (congrFun (arrive_eq w _ _ _ _ _).2.1 _)

end World

/-- **The invariant rule** for ranks checked one by one against their histories. -/
theorem mpi_invariant {α : Type} {size : Nat} {allow : Label (mpi size) → World → Prop}
    {m : Monitor Mpi Local}
    {ok : Fin size → Local → MOp → Prop} {Q : Fin size → α → Local → Prop} {I : World → Prop}
    {prog : Fin size → MProg α} {mem : Nat → Nat → UInt8} {c : Conf (mpi size) α}
    (hupd : m.upd = Local.upd)
    (hcall : ∀ (rank : Fin size) (hint : Hint) op a w, allow (.call rank hint) (w.called hint rank op a) →
      I w → ok rank (w.loc rank) op → w.answer size hint rank op = some a →
      m.adm (w.loc rank) op a ∧ I (w.called hint rank op a))
    (htick : ∀ t w w', allow (.tick t) w' → I w → w.tick t = some w' → I w') (h0 : I { mem })
    (hsafe : ∀ rank, Safe m (ok rank) (prog rank) {} (Q rank))
    (hc : Reachable allow (launch mem prog) c) :
    I c.st ∧ ∀ rank, Safe m (ok rank) (c.prog rank) (World.loc c.st rank) (Q rank) := by
  obtain ⟨upd, adm, spins⟩ := m
  subst hupd
  have h := Reachable.invariant (J := fun (w : World) (s : Fin size → Local) => I w ∧
    ∀ rank : Fin size, s rank = w.loc rank)
    ?_ ?_ ⟨h0, fun _ => rfl⟩ hsafe hc
  · obtain ⟨s, ⟨hI, hs⟩, hsafe'⟩ := h
    refine ⟨hI, fun rank => ?_⟩
    rw [← hs]
    exact hsafe' rank
  · rintro rank (hint : Hint) (op : MOp) (w : World) s a w' hallow ⟨hI, hs⟩ hok hact
    obtain ⟨a', ha', heq⟩ := Option.map_eq_some_iff.1 hact
    cases heq
    rw [hs] at hok ⊢
    obtain ⟨hadm, hI'⟩ := hcall rank hint op a w hallow hI hok ha'
    refine ⟨hadm, hI', fun q => ?_⟩
    rw [World.called_loc, Function.update_apply]
    by_cases hq : q = rank
    · subst hq
      rw [if_pos rfl, if_pos rfl]
    · rw [if_neg hq, if_neg (fun h => hq (Fin.ext h)), hs]
  · rintro t (w : World) s w' hallow ⟨hI, hs⟩ ht
    exact ⟨htick t w w' hallow hI ht, fun rank => by rw [World.tick_loc ht, hs]⟩

/-- The rule with a ghost of each rank's own beside its history. -/
theorem mpi_invariant_ghost {α τ : Type} {size : Nat} {allow : Label (mpi size) → World → Prop}
    {m : Monitor Mpi Local} {m' : Monitor Mpi τ}
    {ok : Fin size → Local × τ → MOp → Prop} {Q : Fin size → α → Local × τ → Prop}
    {I : World → (Fin size → τ) → Prop} {prog : Fin size → MProg α} {mem : Nat → Nat → UInt8}
    {g : Fin size → τ} {c : Conf (mpi size) α} (hupd : m.upd = Local.upd)
    (hcall : ∀ (rank : Fin size) (hint : Hint) op a w t, allow (.call rank hint) (w.called hint rank op a) →
      I w t → ok rank (w.loc rank, t rank) op →
      w.answer size hint rank op = some a → m.adm (w.loc rank) op a ∧ m'.adm (t rank) op a ∧
      I (w.called hint rank op a) (Function.update t rank (m'.upd (t rank) op a)))
    (htick : ∀ t w w' g, allow (.tick t) w' → I w g → w.tick t = some w' → I w' g)
    (h0 : I { mem } g)
    (hsafe : ∀ rank, Safe (m.prod m') (ok rank) (prog rank) ({}, g rank) (Q rank))
    (hc : Reachable allow (launch mem prog) c) :
    ∃ t, I c.st t ∧
      ∀ rank, Safe (m.prod m') (ok rank) (c.prog rank) (World.loc c.st rank, t rank) (Q rank) := by
  obtain ⟨upd, adm, spins⟩ := m
  subst hupd
  let start : Fin size → Local × τ := fun rank => ({}, g rank)
  have hstart : ∀ rank, Safe _ (ok rank) (prog rank) (start rank) (Q rank) := hsafe
  have h := Reachable.invariant (J := fun (w : World) (s : Fin size → Local × τ) =>
    I w (fun rank => (s rank).2) ∧ ∀ rank : Fin size, (s rank).1 = w.loc rank)
    ?_ ?_ ?_ hstart hc
  · obtain ⟨s, ⟨hI, hs⟩, hsafe'⟩ := h
    refine ⟨fun rank => (s rank).2, hI, fun rank => ?_⟩
    rw [← hs]
    exact hsafe' rank
  · rintro rank (hint : Hint) (op : MOp) (w : World) s a w' hallow ⟨hI, hs⟩ hok hact
    obtain ⟨a', ha', heq⟩ := Option.map_eq_some_iff.1 hact
    cases heq
    have hpair : s rank = (w.loc rank, (s rank).2) := Prod.ext (hs rank) rfl
    rw [hpair] at hok ⊢
    obtain ⟨hadm, hadm', hI'⟩ := hcall rank hint op a w _ hallow hI hok ha'
    refine ⟨⟨hadm, hadm'⟩, ?_, fun q => ?_⟩
    · convert hI' using 1
      funext q
      rw [Function.update_apply, Function.update_apply]
      split <;> rfl
    · rw [World.called_loc, Function.update_apply]
      by_cases hq : q = rank
      · subst hq
        rw [if_pos rfl, if_pos rfl]
        rfl
      · rw [if_neg hq, if_neg (fun h => hq (Fin.ext h)), hs]
  · rintro t (w : World) s w' hallow ⟨hI, hs⟩ ht
    exact ⟨htick t w w' _ hallow hI ht, fun rank => by rw [World.tick_loc ht, hs]⟩
  · exact ⟨h0, fun _ => rfl⟩

end RdmaOpera.MpiExec
